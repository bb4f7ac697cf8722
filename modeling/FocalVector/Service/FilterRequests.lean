import FocalVector.Engine.Filter

/-!
Contract: filters of requests.

The HTTP server and the local IPC server each have a type of filters as they arrive, and each
translates it to a filter of the engine. Both walk the tree with a depth and with a budget of
nodes that all subtrees share, and both check the fields and convert the values at its leaves.

Owns: both types of filters, both translations, when they succeed and what they return.

Does not own: reading a filter from JSON text, and what a filter means.
-/

namespace FocalVector.Service

open FocalVector.Foundation FocalVector.Engine

/-! ## Values -/

/-- `value as f64` for integers of either kind. -/
structure NumberConversion extends IntegerConversion where
  ofUnsigned : UInt64 → F64
  ofUnsigned_finite : ∀ value, (ofUnsigned value).isFinite = true

/-- `serde_json::Number` -/
inductive JsonNumber where
  | posInt (value : UInt64)
  | negInt (value : Int64)
  | float (value : F64)

def JsonNumber.asI64 : JsonNumber → Option Int64
  | .posInt value => if value ≤ 0x7fffffffffffffff then some value.toInt64 else none
  | .negInt value => some value
  | .float _ => none

def JsonNumber.asF64 (conversion : NumberConversion) : JsonNumber → Option F64
  | .posInt value => some (conversion.ofUnsigned value)
  | .negInt value => some (conversion.ofInteger value)
  | .float value => some value

/-- `serde_json::Value` -/
inductive JsonValue where
  | null
  | bool (value : Bool)
  | number (value : JsonNumber)
  | string (value : String)
  | array (items : List JsonValue)
  | object (members : List (String × JsonValue))

/-! ## The budget -/

/-- Computations that share the number of nodes that may still be visited. -/
abbrev Budgeted (α : Type) : Type := StateT Nat Result α

/-- The checks at the head of both translations. -/
def enter (depth : Nat) : Budgeted Unit := fun remaining =>
  if 32 ≤ depth then
    .error (.resourceExhausted "filter nesting exceeds 32 levels")
  else
    match remaining with
    | 0 => .error (.resourceExhausted "filter contains more than 1024 nodes")
    | rest + 1 => .ok ((), rest)

/-! ## The HTTP server -/

inductive ApiFilter where
  | matchAll
  | eq (field : String) (value : JsonValue)
  | range (field : String) (gte lt : Option F64)
  | and (filters : List ApiFilter)
  | or (filters : List ApiFilter)
  | not (filter : ApiFilter)

namespace Server

def metadataValue (conversion : NumberConversion) : JsonValue → Result Value
  | .string value => .ok (.keyword value)
  | .bool value => .ok (.boolean value)
  | .number value =>
    match value.asI64 with
    | some value => .ok (.integer value)
    | none =>
      match (value.asF64 conversion).filter F64.isFinite with
      | some value => .ok (.float value)
      | none => .error (.invalidQuery "metadata number is out of range")
  | _ => .error (.invalidQuery "metadata values must be strings, numbers, or booleans")

def validatedField (field : String) : Result String :=
  if field.isEmpty ∨ field.utf8ByteSize > 128 then
    .error (.invalidQuery "filter field names must contain 1-128 bytes")
  else
    .ok field

end Server

section

variable (conversion : NumberConversion)

mutual

def ApiFilter.intoFilterBounded (depth : Nat) (filter : ApiFilter) : Budgeted Filter := do
  enter depth
  match filter with
  | .matchAll => return .matchAll
  | .eq field value =>
    return .eq (← Server.validatedField field) (← Server.metadataValue conversion value)
  | .range field gte lt => return .range (← Server.validatedField field) gte lt
  | .and filters => return .and (← ApiFilter.intoFiltersBounded (depth + 1) filters)
  | .or filters => return .or (← ApiFilter.intoFiltersBounded (depth + 1) filters)
  | .not filter => return .not (← filter.intoFilterBounded (depth + 1))

def ApiFilter.intoFiltersBounded (depth : Nat) : List ApiFilter → Budgeted (List Filter)
  | [] => return []
  | filter :: rest => do
      let first ← filter.intoFilterBounded depth
      let others ← ApiFilter.intoFiltersBounded depth rest
      return first :: others

end

def ApiFilter.intoFilter (depth : Nat) (filter : ApiFilter) : Result Filter := do
  let (translated, _) ← filter.intoFilterBounded conversion depth 1024
  return translated

end

/-! ## The local IPC server -/

/-- `focal_vector_protocol::Filter` -/
inductive ProtocolFilter where
  | matchAll
  | eq (field : String) (value : JsonValue)
  | range (field : String) (gte lt : Option F64)
  | and (filters : List ProtocolFilter)
  | or (filters : List ProtocolFilter)
  | not (filter : ProtocolFilter)

namespace Local

def metadataValue (conversion : NumberConversion) : JsonValue → Result Value
  | .string value => .ok (.keyword value)
  | .bool value => .ok (.boolean value)
  | .number value =>
    match value.asI64 with
    | some value => .ok (.integer value)
    | none =>
      match (value.asF64 conversion).filter F64.isFinite with
      | some value => .ok (.float value)
      | none => .error (.invalidQuery "metadata number is out of range")
  | _ => .error (.invalidQuery "metadata values must be strings, numbers, or booleans")

def validatedField (field : String) : Result String :=
  if field.isEmpty ∨ field.utf8ByteSize > 128 then
    .error (.invalidQuery "filter field names must contain 1-128 bytes")
  else
    .ok field

section

variable (conversion : NumberConversion)

mutual

def filterFromProtocolBounded (depth : Nat) (filter : ProtocolFilter) : Budgeted Filter := do
  enter depth
  match filter with
  | .matchAll => return .matchAll
  | .eq field value => return .eq (← validatedField field) (← metadataValue conversion value)
  | .range field gte lt => return .range (← validatedField field) gte lt
  | .and filters => return .and (← filtersFromProtocolBounded (depth + 1) filters)
  | .or filters => return .or (← filtersFromProtocolBounded (depth + 1) filters)
  | .not filter => return .not (← filterFromProtocolBounded (depth + 1) filter)

def filtersFromProtocolBounded (depth : Nat) : List ProtocolFilter → Budgeted (List Filter)
  | [] => return []
  | filter :: rest => do
      let first ← filterFromProtocolBounded depth filter
      let others ← filtersFromProtocolBounded depth rest
      return first :: others

end

def filterFromProtocol (filter : ProtocolFilter) : Result Filter := do
  let (translated, _) ← filterFromProtocolBounded conversion 0 filter 1024
  return translated

end

end Local

/-! ## The same tree -/

mutual

def ApiFilter.toProtocol : ApiFilter → ProtocolFilter
  | .matchAll => .matchAll
  | .eq field value => .eq field value
  | .range field gte lt => .range field gte lt
  | .and filters => .and (ApiFilter.allToProtocol filters)
  | .or filters => .or (ApiFilter.allToProtocol filters)
  | .not filter => .not filter.toProtocol

def ApiFilter.allToProtocol : List ApiFilter → List ProtocolFilter
  | [] => []
  | filter :: rest => filter.toProtocol :: ApiFilter.allToProtocol rest

end

section

variable (conversion : NumberConversion)

mutual

/-- Both walks agree, in what they return, in what is left and in how they fail. -/
theorem bounded_agree (depth : Nat) (filter : ApiFilter) :
    Local.filterFromProtocolBounded conversion depth filter.toProtocol =
      filter.intoFilterBounded conversion depth := by
  unfold Local.filterFromProtocolBounded ApiFilter.intoFilterBounded
  congr 1
  funext _
  cases filter with
  | matchAll => rfl
  | eq field value => rfl
  | range field gte lt => rfl
  | and filters =>
    exact congrArg (fun walk : Budgeted _ => walk >>= fun parsed => pure (Filter.and parsed))
      (all_bounded_agree (depth + 1) filters)
  | or filters =>
    exact congrArg (fun walk : Budgeted _ => walk >>= fun parsed => pure (Filter.or parsed))
      (all_bounded_agree (depth + 1) filters)
  | not filter =>
    exact congrArg (fun walk : Budgeted _ => walk >>= fun parsed => pure (Filter.not parsed))
      (bounded_agree (depth + 1) filter)

theorem all_bounded_agree (depth : Nat) (filters : List ApiFilter) :
    Local.filtersFromProtocolBounded conversion depth (ApiFilter.allToProtocol filters) =
      ApiFilter.intoFiltersBounded conversion depth filters := by
  cases filters with
  | nil => rfl
  | cons filter rest =>
    unfold ApiFilter.allToProtocol Local.filtersFromProtocolBounded ApiFilter.intoFiltersBounded
    rw [bounded_agree depth filter, all_bounded_agree depth rest]

end

end

/-! ## What is accepted -/

mutual

def ApiFilter.levels : ApiFilter → Nat
  | .matchAll | .eq _ _ | .range _ _ _ => 1
  | .and filters | .or filters => ApiFilter.maxLevels filters + 1
  | .not filter => filter.levels + 1

def ApiFilter.maxLevels : List ApiFilter → Nat
  | [] => 0
  | filter :: rest => max filter.levels (ApiFilter.maxLevels rest)

end

mutual

def ApiFilter.nodes : ApiFilter → Nat
  | .matchAll | .eq _ _ | .range _ _ _ => 1
  | .and filters | .or filters => ApiFilter.totalNodes filters + 1
  | .not filter => filter.nodes + 1

def ApiFilter.totalNodes : List ApiFilter → Nat
  | [] => 0
  | filter :: rest => filter.nodes + ApiFilter.totalNodes rest

end

def ValidField (field : String) : Prop := 1 ≤ field.utf8ByteSize ∧ field.utf8ByteSize ≤ 128

section

variable (conversion : NumberConversion)

/-- A number that is an `i64` or a finite `f64`. -/
def JsonNumber.Representable (number : JsonNumber) : Prop :=
  (∃ value, number.asI64 = some value) ∨
    ∃ value, number.asF64 conversion = some value ∧ value.isFinite = true

def JsonValue.Scalar : JsonValue → Prop
  | .string _ | .bool _ => True
  | .number numeral => numeral.Representable conversion
  | _ => False

/-- What a scalar becomes: an integer where it is one, and a float otherwise. -/
inductive JsonValue.Becomes : JsonValue → Value → Prop
  | keyword (text : String) : Becomes (.string text) (.keyword text)
  | boolean (value : Bool) : Becomes (.bool value) (.boolean value)
  | integer {number : JsonNumber} {value : Int64} (whole : number.asI64 = some value) :
      Becomes (.number number) (.integer value)
  | float {number : JsonNumber} {value : F64} (notWhole : number.asI64 = none)
      (converted : number.asF64 conversion = some value) (finite : value.isFinite = true) :
      Becomes (.number number) (.float value)

mutual

def ApiFilter.Valid : ApiFilter → Prop
  | .matchAll => True
  | .eq field value => ValidField field ∧ value.Scalar conversion
  | .range field _ _ => ValidField field
  | .and filters | .or filters => ApiFilter.AllValid filters
  | .not filter => filter.Valid

def ApiFilter.AllValid : List ApiFilter → Prop
  | [] => True
  | filter :: rest => filter.Valid ∧ ApiFilter.AllValid rest

end

mutual

def ApiFilter.Same : ApiFilter → Filter → Prop
  | .matchAll, .matchAll => True
  | .eq field value, .eq name converted => name = field ∧ value.Becomes conversion converted
  | .range field gte lt, .range name low high => name = field ∧ low = gte ∧ high = lt
  | .and filters, .and parsed => ApiFilter.AllSame filters parsed
  | .or filters, .or parsed => ApiFilter.AllSame filters parsed
  | .not filter, .not parsed => filter.Same parsed
  | _, _ => False

def ApiFilter.AllSame : List ApiFilter → List Filter → Prop
  | [], [] => True
  | filter :: rest, parsed :: others => filter.Same parsed ∧ ApiFilter.AllSame rest others
  | _, _ => False

end

variable {conversion}

/-! ## The leaves -/

theorem metadataValue_eq_ok {value : JsonValue} {converted : Value} :
    Server.metadataValue conversion value = .ok converted ↔
      value.Becomes conversion converted := by
  constructor
  · intro converts
    cases value with
    | string text => cases converts; exact .keyword text
    | bool flag => cases converts; exact .boolean flag
    | number numeral =>
      unfold Server.metadataValue at converts
      cases whole : numeral.asI64 with
      | some integer =>
        simp only [whole] at converts
        cases converts
        exact .integer whole
      | none =>
        simp only [whole] at converts
        cases floats : (numeral.asF64 conversion).filter F64.isFinite with
        | none => simp only [floats] at converts; cases converts
        | some float =>
          simp only [floats] at converts
          cases converts
          obtain ⟨isFloat, finite⟩ := Option.filter_eq_some_iff.mp floats
          exact .float whole isFloat finite
    | null => cases converts
    | array items => cases converts
    | object members => cases converts
  · intro becomes
    cases becomes with
    | keyword text => rfl
    | boolean flag => rfl
    | integer whole => simp only [Server.metadataValue, whole]
    | float notWhole isFloat finite =>
      simp only [Server.metadataValue, notWhole, isFloat, Option.filter, finite, if_true]

theorem scalar_iff {value : JsonValue} :
    value.Scalar conversion ↔ ∃ converted, value.Becomes conversion converted := by
  constructor
  · intro scalar
    cases value with
    | string text => exact ⟨_, .keyword text⟩
    | bool flag => exact ⟨_, .boolean flag⟩
    | number numeral =>
      cases whole : numeral.asI64 with
      | some integer => exact ⟨_, .integer whole⟩
      | none =>
        obtain ⟨float, isFloat, finite⟩ := scalar.resolve_left (by simp [whole])
        exact ⟨_, .float whole isFloat finite⟩
    | null | array _ | object _ => exact scalar.elim
  · rintro ⟨converted, becomes⟩
    cases becomes with
    | keyword text => trivial
    | boolean flag => trivial
    | integer whole => exact .inl ⟨_, whole⟩
    | float notWhole isFloat finite => exact .inr ⟨_, isFloat, finite⟩

theorem validatedField_eq_ok {field name : String} :
    Server.validatedField field = .ok name ↔ ValidField field ∧ name = field := by
  have empty : field.isEmpty = true ↔ field.utf8ByteSize = 0 := by
    simp [String.isEmpty]
  unfold Server.validatedField ValidField
  split
  next refused =>
    rw [empty] at refused
    simp only [reduceCtorEq, false_iff]
    omega
  next accepted =>
    rw [empty] at accepted
    simp only [Except.ok.injEq, @eq_comm _ field, iff_and_self]
    omega

/-! ## The walk -/

variable {α : Type} {left remaining : Nat}

theorem bind_eq_ok {β : Type} {walk : Budgeted α} {next : α → Budgeted β}
    {value : β} :
    (walk >>= next) remaining = .ok (value, left) ↔
      ∃ middle rest, walk remaining = .ok (middle, rest) ∧ next middle rest = .ok (value, left) := by
  constructor
  · intro succeeds
    obtain ⟨⟨middle, rest⟩, first, second⟩ := Result.of_bind_ok succeeds
    exact ⟨middle, rest, first, second⟩
  · rintro ⟨middle, rest, first, second⟩
    show (walk remaining >>= fun found => next found.1 found.2) = _
    rw [first]
    exact second

theorem enter_eq_ok {depth : Nat} {done : Unit} :
    enter depth remaining = .ok (done, left) ↔ depth < 32 ∧ remaining = left + 1 := by
  unfold enter
  split
  · simp only [reduceCtorEq, false_iff]
    omega
  · cases remaining with
    | zero => simp
    | succ rest =>
      simp only [Except.ok.injEq, Prod.mk.injEq, true_and, Nat.add_right_cancel_iff]
      omega

theorem pure_eq_ok {value found : α} :
    (pure value : Budgeted α) remaining = .ok (found, left) ↔ found = value ∧ remaining = left := by
  show Except.ok (value, remaining) = _ ↔ _
  simp [eq_comm]

theorem lift_eq_ok {result : Result α} {found : α} :
    (liftM result : Budgeted α) remaining = .ok (found, left) ↔
      result = .ok found ∧ remaining = left := by
  cases result with
  | error error => exact ⟨nofun, nofun⟩
  | ok value =>
    show Except.ok (value, remaining) = _ ↔ _
    simp

section

variable {field : String} {value : JsonValue} {gte lt : Option F64} {filter : ApiFilter}
  {filters rest : List ApiFilter} {parsed : Filter} {others : List Filter}

theorem same_matchAll : ApiFilter.matchAll.Same conversion parsed ↔ parsed = .matchAll := by
  cases parsed <;> simp [ApiFilter.Same]

theorem same_eq : (ApiFilter.eq field value).Same conversion parsed ↔
    ∃ converted, value.Becomes conversion converted ∧ parsed = .eq field converted := by
  cases parsed <;> simp [ApiFilter.Same, and_comm]

theorem same_range :
    (ApiFilter.range field gte lt).Same conversion parsed ↔ parsed = .range field gte lt := by
  cases parsed <;> simp [ApiFilter.Same]

theorem same_and : (ApiFilter.and filters).Same conversion parsed ↔
    ∃ translated, ApiFilter.AllSame conversion filters translated ∧ parsed = .and translated := by
  cases parsed <;> simp [ApiFilter.Same]

theorem same_or : (ApiFilter.or filters).Same conversion parsed ↔
    ∃ translated, ApiFilter.AllSame conversion filters translated ∧ parsed = .or translated := by
  cases parsed <;> simp [ApiFilter.Same]

theorem same_not : filter.not.Same conversion parsed ↔
    ∃ translated, filter.Same conversion translated ∧ parsed = .not translated := by
  cases parsed <;> simp [ApiFilter.Same]

theorem allSame_nil : ApiFilter.AllSame conversion [] others ↔ others = [] := by
  cases others <;> simp [ApiFilter.AllSame]

theorem allSame_cons : ApiFilter.AllSame conversion (filter :: rest) others ↔
    ∃ first later, filter.Same conversion first ∧ ApiFilter.AllSame conversion rest later ∧
      others = first :: later := by
  cases others <;> simp [ApiFilter.AllSame]

end

theorem enter_bind_eq_ok {form : α → Filter} {walk : Budgeted α}
    {depth levels nodes : Nat} {valid : Prop} {same : α → Prop} {parsed : Filter}
    (below : depth < 32 → ∀ rest translated, walk rest = .ok (translated, left) ↔
      (depth + 1 + levels ≤ 32 ∧ rest = left + nodes) ∧ valid ∧ same translated) :
    (enter depth >>= fun _ => walk >>= fun translated => pure (form translated)) remaining =
        .ok (parsed, left) ↔
      (depth + (levels + 1) ≤ 32 ∧ remaining = left + (nodes + 1)) ∧
        valid ∧ ∃ translated, same translated ∧ parsed = form translated := by
  simp only [bind_eq_ok, enter_eq_ok, pure_eq_ok]
  constructor
  · rintro ⟨-, rest, ⟨inside, rfl⟩, translated, after, walked, isForm, isLeft⟩
    rw [isLeft] at walked
    obtain ⟨⟨shallow, rfl⟩, isValid, isSame⟩ := (below inside rest translated).mp walked
    exact ⟨⟨by omega, rfl⟩, isValid, translated, isSame, isForm⟩
  · rintro ⟨⟨shallow, rfl⟩, isValid, translated, isSame, isForm⟩
    have inside : depth < 32 := by omega
    exact ⟨(), left + nodes, ⟨inside, rfl⟩, translated, left,
      (below inside _ _).mpr ⟨⟨by omega, rfl⟩, isValid, isSame⟩, isForm, rfl⟩

mutual

/-- A walk from `depth` succeeds when the tree ends above level 32, its nodes are within what
remains and its leaves are valid. It takes its nodes from what remains. -/
theorem intoFilterBounded_eq_ok {depth remaining left : Nat} {filter : ApiFilter}
    {parsed : Filter} :
    filter.intoFilterBounded conversion depth remaining = .ok (parsed, left) ↔
      (depth + filter.levels ≤ 32 ∧ remaining = left + filter.nodes) ∧
        filter.Valid conversion ∧ filter.Same conversion parsed := by
  unfold ApiFilter.intoFilterBounded
  cases filter with
  | matchAll =>
    simp only [bind_eq_ok, enter_eq_ok, pure_eq_ok, same_matchAll, ApiFilter.levels,
      ApiFilter.nodes, ApiFilter.Valid]
    grind
  | eq field value =>
    simp only [bind_eq_ok, enter_eq_ok, lift_eq_ok, pure_eq_ok, validatedField_eq_ok,
      metadataValue_eq_ok, same_eq, ApiFilter.levels, ApiFilter.nodes, ApiFilter.Valid,
      scalar_iff]
    grind
  | range field gte lt =>
    simp only [bind_eq_ok, enter_eq_ok, lift_eq_ok, pure_eq_ok, validatedField_eq_ok,
      same_range, ApiFilter.levels, ApiFilter.nodes, ApiFilter.Valid]
    grind
  | and filters =>
    rw [same_and, ApiFilter.levels, ApiFilter.nodes, ApiFilter.Valid]
    exact enter_bind_eq_ok fun inside _ _ => intoFiltersBounded_eq_ok inside
  | or filters =>
    rw [same_or, ApiFilter.levels, ApiFilter.nodes, ApiFilter.Valid]
    exact enter_bind_eq_ok fun inside _ _ => intoFiltersBounded_eq_ok inside
  | not filter =>
    rw [same_not, ApiFilter.levels, ApiFilter.nodes, ApiFilter.Valid]
    exact enter_bind_eq_ok fun _ _ _ => intoFilterBounded_eq_ok

theorem intoFiltersBounded_eq_ok {depth remaining left : Nat} {filters : List ApiFilter}
    {parsed : List Filter} (within : depth ≤ 32) :
    ApiFilter.intoFiltersBounded conversion depth filters remaining = .ok (parsed, left) ↔
      (depth + ApiFilter.maxLevels filters ≤ 32 ∧
        remaining = left + ApiFilter.totalNodes filters) ∧
        ApiFilter.AllValid conversion filters ∧ ApiFilter.AllSame conversion filters parsed := by
  cases filters with
  | nil =>
    rw [ApiFilter.intoFiltersBounded, pure_eq_ok, allSame_nil]
    simp only [ApiFilter.maxLevels, ApiFilter.totalNodes, ApiFilter.AllValid]
    grind
  | cons filter rest =>
    have first := fun budget left parsed =>
      @intoFilterBounded_eq_ok depth budget left filter parsed
    have later := fun budget left parsed =>
      @intoFiltersBounded_eq_ok depth budget left rest parsed within
    unfold ApiFilter.intoFiltersBounded
    simp only [bind_eq_ok, pure_eq_ok, allSame_cons, ApiFilter.maxLevels, ApiFilter.totalNodes,
      ApiFilter.AllValid, first, later]
    grind

end

/-! ## The translations -/

theorem intoFilter_eq_ok {filter : ApiFilter} {parsed : Filter} :
    filter.intoFilter conversion 0 = .ok parsed ↔
      (filter.levels ≤ 32 ∧ filter.nodes ≤ 1024) ∧
        filter.Valid conversion ∧ filter.Same conversion parsed := by
  constructor
  · intro succeeds
    obtain ⟨⟨translated, left⟩, walks, isParsed⟩ := Result.of_bind_ok succeeds
    cases isParsed
    obtain ⟨⟨shallow, few⟩, valid, same⟩ := intoFilterBounded_eq_ok.mp walks
    exact ⟨⟨by omega, by omega⟩, valid, same⟩
  · rintro ⟨⟨shallow, few⟩, valid, same⟩
    have walks : filter.intoFilterBounded conversion 0 1024 =
        .ok (parsed, 1024 - filter.nodes) :=
      intoFilterBounded_eq_ok.mpr ⟨⟨by omega, by omega⟩, valid, same⟩
    unfold ApiFilter.intoFilter
    rw [walks]
    rfl

mutual

/-- A valid tree has a translation. -/
theorem exists_same (filter : ApiFilter) (valid : filter.Valid conversion) :
    ∃ parsed, filter.Same conversion parsed := by
  cases filter with
  | matchAll => exact ⟨.matchAll, trivial⟩
  | eq field value =>
    obtain ⟨converted, becomes⟩ := scalar_iff.mp valid.2
    exact ⟨.eq field converted, rfl, becomes⟩
  | range field gte lt => exact ⟨.range field gte lt, rfl, rfl, rfl⟩
  | and filters =>
    obtain ⟨parsed, same⟩ := exists_allSame filters valid
    exact ⟨.and parsed, same⟩
  | or filters =>
    obtain ⟨parsed, same⟩ := exists_allSame filters valid
    exact ⟨.or parsed, same⟩
  | not filter =>
    obtain ⟨parsed, same⟩ := exists_same filter valid
    exact ⟨.not parsed, same⟩

theorem exists_allSame (filters : List ApiFilter)
    (valid : ApiFilter.AllValid conversion filters) :
    ∃ parsed, ApiFilter.AllSame conversion filters parsed := by
  cases filters with
  | nil => exact ⟨[], trivial⟩
  | cons filter rest =>
    obtain ⟨first, same⟩ := exists_same filter valid.1
    obtain ⟨others, allSame⟩ := exists_allSame rest valid.2
    exact ⟨first :: others, same, allSame⟩

end

variable (conversion) in
/-- Both servers translate a tree alike. They accept it exactly when it has at most 32 levels
and 1024 nodes, with field names of 1 to 128 bytes and scalar values, and the filter has the
shape, the fields, the bounds and the values of the tree. -/
theorem filter_parsers_agree (filter : ApiFilter) :
    Local.filterFromProtocol conversion filter.toProtocol = filter.intoFilter conversion 0 ∧
      ((∃ parsed, filter.intoFilter conversion 0 = .ok parsed) ↔
        filter.levels ≤ 32 ∧ filter.nodes ≤ 1024 ∧ filter.Valid conversion) ∧
      ∀ parsed, filter.intoFilter conversion 0 = .ok parsed → filter.Same conversion parsed := by
  refine ⟨?_, ?_, fun parsed accepted => (intoFilter_eq_ok.mp accepted).2.2⟩
  · unfold Local.filterFromProtocol ApiFilter.intoFilter
    rw [bounded_agree]
  · constructor
    · rintro ⟨parsed, accepted⟩
      obtain ⟨⟨shallow, few⟩, valid, -⟩ := intoFilter_eq_ok.mp accepted
      exact ⟨shallow, few, valid⟩
    · rintro ⟨shallow, few, valid⟩
      obtain ⟨parsed, same⟩ := exists_same filter valid
      exact ⟨parsed, intoFilter_eq_ok.mpr ⟨⟨shallow, few⟩, valid, same⟩⟩

end

def NumberConversion.zero : NumberConversion where
  ofInteger _ := ⟨0⟩
  ofInteger_finite _ := rfl
  ofUnsigned _ := ⟨0⟩
  ofUnsigned_finite _ := rfl

/-- A request of nested filters is accepted by both servers. -/
theorem nested_filter_accepted :
    ∃ parsed, Local.filterFromProtocol .zero
      (.not (.and [.eq "kind" (.string "a"), .range "size" (some ⟨0⟩) none])) = .ok parsed ∧
        (ApiFilter.not (.and [.eq "kind" (.string "a"),
          .range "size" (some ⟨0⟩) none])).Same .zero parsed := by
  obtain ⟨agree, accepted, same⟩ := filter_parsers_agree .zero
    (.not (.and [.eq "kind" (.string "a"), .range "size" (some ⟨0⟩) none]))
  have valid : ValidField "kind" ∧ ValidField "size" := by
    unfold ValidField
    decide
  obtain ⟨parsed, translates⟩ := accepted.mpr
    ⟨by decide, by decide, ⟨valid.1, trivial⟩, valid.2, trivial⟩
  exact ⟨parsed, agree.trans translates, same parsed translates⟩

end FocalVector.Service
