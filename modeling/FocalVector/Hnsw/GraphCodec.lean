import FocalVector.Foundation.SafeDecoding
import FocalVector.Hnsw.Search

/-!
Contract: graphs in the bytes of a segment.

A graph is stored as a header, its nodes with their ids, vectors and lists of links, and
nothing behind them. The decoder checks each count against a limit of the format before it
reads so many items, and the graph as a whole when it has all nodes.

Owns: the decoder of graphs, which inputs make it panic, and why the graphs that it accepts
can be searched.

Does not own: segments. Sums of products of codes wrap around beyond 2^49 codes.
-/

namespace FocalVector.Hnsw

open FocalVector.Foundation FocalVector.Engine LittleEndian
open FocalVector.Persistence (ofUtf8)

/-! ## Reading values -/

/-- `GraphDecoder` -/
abbrev GraphDecoder (α : Type) := Decoder (Stop Error) α

namespace GraphDecoder

def refuse (bad : Prop) [Decidable bad] (message : String) : GraphDecoder Unit :=
  Decoder.reject bad (.error (.corruptStorage message))

def take (length : Nat) : GraphDecoder Bytes := do
  let position ← Decoder.position
  refuse (usizeMax < position + length) "HNSW graph length overflow"
  Decoder.take (.error (.corruptStorage "truncated HNSW graph")) length

def byte : GraphDecoder UInt8 := do
  let bytes ← take 1
  pure (bytes.headD 0)

def u64 : GraphDecoder UInt64 := do
  let bytes ← take 8
  pure (u64OfBytes bytes)

/-- `usize`, which is stored with 32 bits. -/
def usize : GraphDecoder Nat := do
  let bytes ← take 4
  pure (u32OfBytes bytes).toNat

def f32 : GraphDecoder F32 := do
  let bytes ← take 4
  pure ⟨u32OfBytes bytes⟩

def string : GraphDecoder String := do
  let length ← usize
  let bytes ← take length
  match ofUtf8 bytes with
  | some value => pure value
  | none => throw (.error (.corruptStorage "HNSW graph contains invalid UTF-8"))

def finish : GraphDecoder Unit :=
  Decoder.finish (.error (.corruptStorage "trailing bytes in HNSW graph"))

end GraphDecoder

/-! ## The header -/

def graphMagic : Bytes := [0x46, 0x56, 0x48, 0x47]

def graphVersion : UInt8 := 2

def legacyGraphVersion : UInt8 := 1

def parseMetric (tag : UInt8) : Result Metric :=
  match tag with
  | 1 => .ok .cosine
  | 2 => .ok .dotProduct
  | 3 => .ok .euclidean
  | tag => .error (.corruptStorage s!"unknown HNSW metric tag {tag}")

def parseStorage (tag : UInt8) : Result HnswVectorStorage :=
  match tag with
  | 1 => .ok .f32
  | 2 => .ok .scalarInt8
  | tag => .error (.corruptStorage s!"unknown HNSW vector storage tag {tag}")

/-- What stands in front of the nodes. -/
structure GraphHeader where
  dimension : Nat
  metric : Metric
  storage : HnswVectorStorage
  config : HnswConfig
  nodeCount : Nat
  entryPoint : Option Nat
  maxLevel : Nat

abbrev Mapping := Option (Bytes × Nat)

namespace GraphDecoder

def storage (version : UInt8) : GraphDecoder HnswVectorStorage :=
  if version = legacyGraphVersion then pure .f32
  else do
    let tag ← byte
    Decoder.ofExcept (Checked.ofResult (parseStorage tag))

/-- `validate_config`, whose errors are those of a corrupt file here. -/
def config (dimension : Nat) : GraphDecoder HnswConfig := do
  let m ← usize
  let efConstruction ← usize
  Decoder.ofExcept (Checked.ofResult ((validateConfig dimension ⟨m, efConstruction⟩).mapError
    fun error => .corruptStorage error.toText))
  pure ⟨m, efConstruction⟩

def header : GraphDecoder GraphHeader := do
  let magic ← take 4
  refuse (magic ≠ graphMagic) "invalid HNSW graph header"
  let version ← byte
  refuse (version ≠ legacyGraphVersion ∧ version ≠ graphVersion) "invalid HNSW graph header"
  let dimension ← u64
  let tag ← byte
  let metric ← Decoder.ofExcept (Checked.ofResult (parseMetric tag))
  let storage ← storage version
  let config ← config dimension.toNat
  let nodeCount ← usize
  refuse (100000000 < nodeCount) "HNSW node count exceeds limit"
  let entryRaw ← u64
  let maxLevel ← usize
  refuse (Hnsw.maxLevel < maxLevel) "HNSW level exceeds limit"
  pure {
    dimension := dimension.toNat
    metric, storage, config, nodeCount, maxLevel
    entryPoint := if entryRaw.toNat = 2 ^ 64 - 1 then none else some entryRaw.toNat }

/-! ## The nodes -/

structure Decoded where
  nodes : List Node
  ids : List String
  vectors : VectorArena

def hashBuckets (items : Nat) : Nat :=
  if items < 4 then 4 else if items < 8 then 8 else 2 ^ (Nat.log2 (items * 8 / 7 - 1) + 1)

def component : GraphDecoder F32 := do
  let value ← f32
  refuse (value.isFinite = false) "HNSW graph contains a non-finite vector"
  pure value

def codes (dimension : Nat) : GraphDecoder (Nat × Bytes) := do
  let position ← Decoder.position
  let bytes ← take dimension
  pure (position, bytes)

def link : GraphDecoder Nat := do
  let link ← usize
  refuse (2 ^ 32 ≤ link) "HNSW neighbor index exceeds u32"
  pure link

def layers (config : HnswConfig) : Nat → Nat → GraphDecoder (List (List Nat))
  | _, 0 => pure []
  | layer, count + 1 => do
      let length ← usize
      refuse (maxConnections config layer < length)
        "HNSW neighbor list exceeds its configured layer limit"
      Decoder.ofExcept (Checked.capacity length 4)
      let list ← Decoder.collect link length
      let rest ← layers config (layer + 1) count
      pure (list :: rest)

section Nodes

variable (arith : HnswArithmetic) (mapping : Mapping) (header : GraphHeader)

def arena : Checking VectorArena :=
  match mapping, header.storage with
  | some (file, _), .scalarInt8 => do
      Checked.capacity header.nodeCount 8
      Checked.capacity header.nodeCount 4
      Checked.capacity header.nodeCount 4
      return .mappedScalarInt8 file [] [] []
  | _, storage => VectorArena.withCapacity storage header.nodeCount header.dimension

/-- The vector of a node. A mapped one is in the arena already and leaves its codes in the
file. -/
def vector (vectors : VectorArena) : GraphDecoder (PreparedVector × VectorArena) :=
  match header.storage with
  | .f32 => do
      Decoder.ofExcept (Checked.capacity header.dimension 4)
      let vector ← Decoder.collect component header.dimension
      pure (.f32 vector, vectors)
  | .scalarInt8 => do
      let scale ← f32
      refuse (scale.isFinite = false ∨ F32.lt ⟨0⟩ scale = false)
        "HNSW graph contains invalid quantization parameters"
      let (position, bytes) ← codes header.dimension
      match mapping with
      | some (_, offset) => do
          let squaredNorm := quantizedSquaredNormBytes arith bytes scale
          let start ← Decoder.ofExcept (Checked.usize (offset + position))
          let vectors ← Decoder.ofExcept (vectors.pushMapped start scale squaredNorm)
          pure (.scalarInt8 ⟨[], scale, squaredNorm⟩, vectors)
      | none =>
        let codes := bytes.map UInt8.toInt8
        pure (.scalarInt8 ⟨codes, scale, quantizedSquaredNorm arith codes scale⟩, vectors)

def nextVector (vectors : VectorArena) : GraphDecoder VectorArena := do
  let (vector, vectors) ← vector arith mapping header vectors
  if vectors.isMapped then pure vectors else Decoder.ofExcept (vectors.push vector)

def node (decoded : Decoded) : GraphDecoder Decoded := do
  let id ← string
  refuse (id.isEmpty ∨ id ∈ decoded.ids) "HNSW graph contains an empty or duplicate ID"
  let vectors ← nextVector arith mapping header decoded.vectors
  let layerCount ← usize
  refuse (layerCount = 0 ∨ Hnsw.maxLevel + 1 < layerCount) "HNSW node has an invalid layer count"
  Decoder.ofExcept (Checked.capacity layerCount 24)
  let neighbors ← layers header.config 0 layerCount
  pure ⟨decoded.nodes ++ [⟨layerCount - 1, 0, neighbors⟩], decoded.ids ++ [id], vectors⟩

def checkEntry (nodes : List Node) : Checking Unit :=
  if header.nodeCount = 0 then
    if header.entryPoint ≠ none ∨ header.maxLevel ≠ 0 then
      .error (.error (.corruptStorage "empty HNSW graph has an entry point"))
    else
      .ok ()
  else
    match header.entryPoint with
    | none => .error (.error (.corruptStorage "non-empty HNSW graph has no entry point"))
    | some entry => do
        if header.nodeCount ≤ entry then
          .error (.error (.corruptStorage "invalid HNSW entry point"))
        else do
          let node ← Checked.get nodes entry
          if node.level < header.maxLevel then
            .error (.error (.corruptStorage "invalid HNSW entry point"))

def checkNeighbors (nodes : List Node) : Result Unit :=
  if nodes.zipIdx.any fun (node, position) => node.neighbors.any fun layer =>
      layer.any fun neighbor => header.nodeCount ≤ neighbor ∨ neighbor = position then
    .error (.corruptStorage "HNSW graph contains an invalid neighbor")
  else
    .ok ()

def Decoded.index (decoded : Decoded) : HnswIndex where
  dimension := header.dimension
  metric := header.metric
  config := header.config
  nodes := decoded.nodes
  ids := decoded.ids
  vectors := decoded.vectors
  entryPoint := header.entryPoint
  maxLevel := header.maxLevel
  compactGraph := none

def compact (index : HnswIndex) : Checking HnswIndex :=
  match index.finalizeCompactGraph with
  | .error (.error error) => .error (.error (.corruptStorage
      s!"could not compact decoded HNSW graph: {error.toText}"))
  | outcome => outcome

def body : GraphDecoder HnswIndex := do
  Decoder.ofExcept (Checked.capacity header.nodeCount 32)
  refuse (usizeMax < header.nodeCount * header.dimension)
    "HNSW vector storage size overflows address space"
  let vectors ← Decoder.ofExcept (arena mapping header)
  Decoder.ofExcept (Checked.capacity (hashBuckets header.nodeCount) 25)
  Decoder.ofExcept (Checked.capacity header.nodeCount 16)
  let decoded ← Decoder.iterate (node arith mapping header) header.nodeCount ⟨[], [], vectors⟩
  finish
  Decoder.ofExcept do
    checkEntry header decoded.nodes
    Checked.ofResult (checkNeighbors header decoded.nodes)
    compact (decoded.index header)

end Nodes

end GraphDecoder

/-- `decode_inner` -/
def HnswIndex.decodeInner (arith : HnswArithmetic) (bytes : Bytes) (mapping : Mapping) :
    Checking HnswIndex :=
  Decoder.run (do
    let header ← GraphDecoder.header
    GraphDecoder.body arith mapping header) bytes

/-- The memory that the arena of a graph asks for, unless the codes stay in a file. -/
def GraphHeader.arenaBytes (header : GraphHeader) (mapping : Mapping) : Nat :=
  match header.storage with
  | .f32 => header.nodeCount * header.dimension * 4
  | .scalarInt8 => if mapping.isSome then 0 else header.nodeCount * header.dimension

/-! ## What the decoder ensures -/

namespace GraphDecoder

open Decoder (Ensures)

variable {bytes : Bytes}

theorem ensures_take (length : Nat) :
    Ensures bytes (take length) fun taken => taken.length = length :=
  Ensures.position_read.bind fun _ _ => (Ensures.reject _ _).bind fun _ _ => Ensures.take _ _

theorem ensures_byte : Ensures bytes byte fun _ => True :=
  (ensures_take 1).bind fun _ _ => .pure trivial

theorem ensures_u64 : Ensures bytes u64 fun _ => True :=
  (ensures_take 8).bind fun _ _ => .pure trivial

theorem ensures_usize : Ensures bytes usize (· < 2 ^ 32) :=
  (ensures_take 4).bind fun read _ => .pure (u32OfBytes read).toNat_lt

theorem ensures_f32 : Ensures bytes f32 fun _ => True :=
  (ensures_take 4).bind fun _ _ => .pure trivial

theorem ensures_string : Ensures bytes string fun _ => True := by
  refine ensures_usize.bind fun length _ => (ensures_take length).bind fun read _ => ?_
  cases ofUtf8 read with
  | some value => exact .pure trivial
  | none => exact .throw _

theorem ensures_checked {α : Type} (result : Result α) :
    Ensures bytes (Decoder.ofExcept (Checked.ofResult result)) fun _ => True :=
  .ofExcept (Checked.settles_ofResult result) fun _ _ => trivial

theorem ensures_capacity {count size : Nat} (fits : count * size < 2 ^ 63) :
    Ensures bytes (Decoder.ofExcept (Checked.capacity count size) : GraphDecoder Unit)
      fun _ => True := by
  rw [Checked.capacity_of_lt fits]
  exact .ofExcept trivial fun _ _ => trivial

/-- The counts of a header are within the limits of the format. -/
structure Limited (header : GraphHeader) : Prop where
  nodes : header.nodeCount ≤ 100000000
  dimension : header.dimension < 2 ^ 64

theorem ensures_header : Ensures bytes header Limited := by
  refine (ensures_take 4).bind fun _ _ => (Ensures.reject _ _).bind fun _ _ =>
    ensures_byte.bind fun version _ => (Ensures.reject _ _).bind fun _ _ =>
    ensures_u64.bind fun dimension _ => ensures_byte.bind fun _ _ =>
    (ensures_checked _).bind fun _ _ => ?_
  have isStorage : Ensures bytes (storage version) fun _ => True := by
    unfold storage
    split
    · exact .pure trivial
    · exact ensures_byte.bind fun _ _ => ensures_checked _
  have isConfig : Ensures bytes (config dimension.toNat) fun _ => True :=
    ensures_usize.bind fun _ _ => ensures_usize.bind fun _ _ =>
      (ensures_checked _).bind fun _ _ => .pure trivial
  exact isStorage.bind fun _ _ => isConfig.bind fun _ _ => ensures_usize.bind fun _ _ =>
    (Ensures.reject _ _).bind fun _ few => ensures_u64.bind fun _ _ =>
    ensures_usize.bind fun _ _ => (Ensures.reject _ _).bind fun _ _ =>
    .pure ⟨Nat.le_of_not_lt few, dimension.toNat_lt⟩

theorem ensures_codes (dimension : Nat) :
    Ensures bytes (codes dimension) fun read => read.1 + dimension ≤ bytes.length ∧
      read.2 = (bytes.drop read.1).take dimension := by
  refine (ensures_take dimension).with_position fun position taken next took => ?_
  obtain ⟨_, _, started, took⟩ := Decoder.of_bind_ok took
  cases started
  obtain ⟨_, _, fits, took⟩ := Decoder.of_bind_ok took
  unfold refuse Decoder.reject at fits
  split at fits
  · cases fits
  cases fits
  simp only [Decoder.take] at took
  split at took
  next within =>
    cases took
    exact ⟨within, rfl⟩
  next => cases took

def Located (bytes : Bytes) (mapping : Mapping) : Prop :=
  ∀ file offset, mapping = some (file, offset) →
    file.length < 2 ^ 63 ∧ offset + bytes.length ≤ file.length

/-- The arenas of a storage, with and without a file. -/
inductive Suits : Mapping → HnswVectorStorage → VectorArena → Prop where
  | f32 (mapping : Mapping) (components : List F32) : Suits mapping .f32 (.f32 components)
  | scalarInt8 (codes : List Int8) (scales squaredNorms : List F32) :
      Suits none .scalarInt8 (.scalarInt8 codes scales squaredNorms)
  | mapped (file : Bytes) (offset : Nat) (offsets : List Nat) (scales squaredNorms : List F32) :
      Suits (some (file, offset)) .scalarInt8 (.mappedScalarInt8 file offsets scales squaredNorms)

section Nodes

variable {mapping : Mapping} {header : GraphHeader}

theorem arena_returns (limited : Limited header) (located : Located bytes mapping)
    (room : header.arenaBytes mapping < 2 ^ 63) :
    ∃ vectors, arena mapping header = .ok vectors ∧ Suits mapping header.storage vectors ∧
      vectors.Holds header.dimension [] := by
  have few := limited.nodes
  have least : saturatingMul header.nodeCount header.dimension ≤ header.nodeCount * header.dimension :=
    min_le_left _ _
  obtain ⟨dimension, metric, storage, config, nodeCount, entryPoint, maxLevel⟩ := header
  unfold GraphHeader.arenaBytes at room
  unfold arena VectorArena.withCapacity
  simp only at few least room ⊢
  cases storage with
  | f32 =>
    simp only at room ⊢
    have fits : saturatingMul nodeCount dimension * 4 < 2 ^ 63 := by omega
    rw [Checked.bind_ok (Checked.capacity_of_lt fits)]
    exact ⟨_, rfl, .f32 mapping [], @VectorArena.Holds.f32 dimension [] (by simp)⟩
  | scalarInt8 =>
    cases mapping with
    | none =>
      simp only [Option.isSome_none, Bool.false_eq_true, if_false] at room ⊢
      rw [Checked.bind_ok (Checked.capacity_of_lt (by omega)),
        Checked.bind_ok (Checked.capacity_of_lt (by omega)),
        Checked.bind_ok (Checked.capacity_of_lt (by omega))]
      exact ⟨_, rfl, .scalarInt8 [] [] [], @VectorArena.Holds.scalarInt8 dimension [] (by simp)⟩
    | some place =>
      obtain ⟨file, offset⟩ := place
      simp only
      rw [Checked.bind_ok (Checked.capacity_of_lt (by omega)),
        Checked.bind_ok (Checked.capacity_of_lt (by omega)),
        Checked.bind_ok (Checked.capacity_of_lt (by omega))]
      exact ⟨_, rfl, .mapped file offset [] [] [], @VectorArena.Holds.mappedScalarInt8 dimension
        [] file [] (located file offset rfl).1 rfl (by simp)⟩

theorem arena_panics (addressable : header.nodeCount * header.dimension ≤ usizeMax)
    (large : 2 ^ 63 ≤ header.arenaBytes mapping) :
    arena mapping header = .error (.panic .capacity) := by
  have exact_ : saturatingMul header.nodeCount header.dimension =
      header.nodeCount * header.dimension := min_eq_left addressable
  obtain ⟨dimension, metric, storage, config, nodeCount, entryPoint, maxLevel⟩ := header
  unfold GraphHeader.arenaBytes at large
  unfold arena VectorArena.withCapacity
  simp only at exact_ large ⊢
  rw [exact_]
  cases storage with
  | f32 =>
    simp only [Checked.capacity, if_neg large.not_gt]
    rfl
  | scalarInt8 =>
    cases mapping with
    | none =>
      simp only [Option.isSome_none, Bool.false_eq_true, if_false] at large
      simp only [Checked.capacity, Nat.mul_one, if_neg large.not_gt]
      rfl
    | some place => simp at large

theorem ensures_component : Ensures bytes component fun _ => True :=
  ensures_f32.bind fun _ _ => (Ensures.reject _ _).bind fun _ _ => .pure trivial

def Extends (mapping : Mapping) (header : GraphHeader) (stored : List PreparedVector)
    (next : VectorArena) : Prop :=
  Suits mapping header.storage next ∧ ∃ vector, next.Holds header.dimension (stored ++ [vector])

variable {vectors : VectorArena} {stored : List PreparedVector}

theorem ensures_push (suits : Suits mapping header.storage vectors)
    (holds : vectors.Holds header.dimension stored) (owned : vectors.isMapped = false)
    {vector : PreparedVector} (fits : vector.Fits vectors.storage header.dimension) :
    Ensures bytes (Decoder.ofExcept (vectors.push vector)) (Extends mapping header stored) := by
  obtain ⟨next, pushes, longer, kind, nextOwned⟩ := holds.push fits owned
  rw [pushes]
  refine .ofExcept trivial fun value same => ?_
  obtain rfl := Except.ok.inj same
  refine ⟨?_, vector, longer⟩
  generalize header.storage = storage at suits ⊢
  cases suits with
  | f32 =>
    cases next with
    | f32 components => exact .f32 mapping components
    | scalarInt8 => cases kind
    | mappedScalarInt8 => cases nextOwned
  | scalarInt8 =>
    cases next with
    | f32 => cases kind
    | scalarInt8 codes scales squaredNorms => exact .scalarInt8 codes scales squaredNorms
    | mappedScalarInt8 => cases nextOwned
  | mapped => cases owned

theorem ensures_nextVector (arith : HnswArithmetic) (located : Located bytes mapping)
    (fits : header.storage = .f32 → header.dimension * 4 < 2 ^ 63)
    (suits : Suits mapping header.storage vectors) (holds : vectors.Holds header.dimension stored) :
    Ensures bytes (nextVector arith mapping header vectors) (Extends mapping header stored) := by
  have pushes := @ensures_push bytes mapping header vectors stored suits holds
  unfold nextVector vector
  generalize isStorage : header.storage = storage at suits ⊢
  cases suits with
  | f32 _ components =>
    refine @Ensures.bind _ _ _ _ _ (fun read => read.2 = .f32 components ∧
      read.1.Fits .f32 header.dimension) _ _ ?_ ?_
    · exact (ensures_capacity (fits isStorage)).bind fun _ _ => (ensures_component.collect _).bind
        fun _ counted => .pure ⟨rfl, rfl, counted.1⟩
    · rintro ⟨vector, _⟩ ⟨rfl, isFit⟩
      exact pushes rfl isFit
  | scalarInt8 codes scales squaredNorms =>
    refine @Ensures.bind _ _ _ _ _ (fun read => read.2 = .scalarInt8 codes scales squaredNorms ∧
      read.1.Fits .scalarInt8 header.dimension) _ _ ?_ ?_
    · refine ensures_f32.bind fun scale _ => (Ensures.reject _ _).bind fun _ _ =>
        (ensures_codes _).bind fun read placed => .pure ⟨rfl, rfl, ?_⟩
      obtain ⟨inside, isRead⟩ := placed
      simp only [PreparedVector.length, isRead, List.length_map, List.length_take,
        List.length_drop]
      omega
    · rintro ⟨vector, _⟩ ⟨rfl, isFit⟩
      exact pushes rfl isFit
  | mapped file offset offsets scales squaredNorms =>
    obtain ⟨mapped, inFile⟩ := located file offset rfl
    refine @Ensures.bind _ _ _ _ _ (fun read => read.2.isMapped = true ∧
      Extends (some (file, offset)) header stored read.2) _ _ ?_ ?_
    · refine ensures_f32.bind fun scale _ => (Ensures.reject _ _).bind fun _ _ =>
        (ensures_codes _).bind fun read placed => ?_
      have start : (Checked.usize (offset + read.1) : Checking Nat) = .ok (offset + read.1) :=
        Checked.usize_of_lt (by omega)
      simp only [start]
      refine Ensures.bind (.ofExcept trivial fun value same => (Except.ok.inj same).symm) ?_
      rintro _ rfl
      refine Ensures.bind (.ofExcept trivial fun value same => (Except.ok.inj same).symm) ?_
      rintro _ rfl
      refine .pure ⟨rfl, ?_, _, holds.pushMapped (by omega) _ _⟩
      rw [isStorage]
      exact .mapped _ _ _ _ _
    · rintro ⟨vector, next⟩ ⟨isMapped, grows⟩
      simp only [isMapped, if_true]
      exact .pure grows

theorem ensures_link : Ensures bytes link fun _ => True :=
  ensures_usize.bind fun _ _ => (Ensures.reject _ _).bind fun _ _ => .pure trivial

theorem ensures_layers (config : HnswConfig) (layer count : Nat) :
    Ensures bytes (layers config layer count) (·.length = count) := by
  induction count generalizing layer with
  | zero => exact .pure rfl
  | succ count ih =>
    exact ensures_usize.bind fun length small => (Ensures.reject _ _).bind fun _ _ =>
      (ensures_capacity (by omega)).bind fun _ _ => (ensures_link.collect length).bind fun _ _ =>
      (ih (layer + 1)).bind fun _ counted => .pure (congrArg (· + 1) counted)

/-- The nodes that have been read. -/
structure Sound (mapping : Mapping) (header : GraphHeader) (count : Nat) (decoded : Decoded) :
    Prop where
  counted : decoded.nodes.length = count
  named : decoded.ids.length = count
  distinct : decoded.ids.Nodup
  layered : HnswIndex.Layered decoded.nodes
  suits : Suits mapping header.storage decoded.vectors
  stored : ∃ stored : List PreparedVector, stored.length = count ∧
    decoded.vectors.Holds header.dimension stored

theorem ensures_node (arith : HnswArithmetic) (located : Located bytes mapping)
    (fits : header.storage = .f32 → header.dimension * 4 < 2 ^ 63) {count : Nat}
    {decoded : Decoded} (sound : Sound mapping header count decoded) :
    Ensures bytes (node arith mapping header decoded) (Sound mapping header (count + 1)) := by
  obtain ⟨stored, isCount, holds⟩ := sound.stored
  refine ensures_string.bind fun id _ => (Ensures.reject _ _).bind fun _ isNew =>
    (ensures_nextVector arith located fits sound.suits holds).bind fun vectors longer =>
    ensures_usize.bind fun layerCount small => (Ensures.reject _ _).bind fun _ isCounted =>
    (ensures_capacity (by omega)).bind fun _ _ =>
    (ensures_layers header.config 0 layerCount).bind fun neighbors isLayers => .pure ?_
  obtain ⟨suits, vector, holds⟩ := longer
  rw [not_or] at isNew isCounted
  exact {
    counted := by rw [List.length_append, sound.counted]; rfl
    named := by rw [List.length_append, sound.named]; rfl
    distinct := List.nodup_append.mpr ⟨sound.distinct, List.nodup_singleton id,
      fun other member _ isId => by
        rw [List.mem_singleton.mp isId]
        exact fun same => isNew.2 (same ▸ member)⟩
    layered := fun node member => by
      rcases List.mem_append.mp member with earlier | isNode
      · exact sound.layered node earlier
      · rw [List.mem_singleton.mp isNode]
        show neighbors.length = layerCount - 1 + 1
        omega
    suits
    stored := ⟨stored ++ [vector], by rw [List.length_append, isCount]; rfl, holds⟩ }

theorem checkEntry_settles {nodes : List Node} (counted : nodes.length = header.nodeCount) :
    (checkEntry header nodes).Settles ∧ (checkEntry header nodes = .ok () →
      ∀ entry, header.entryPoint = some entry → entry < nodes.length) := by
  unfold checkEntry
  rw [counted]
  split
  · split
    · exact ⟨trivial, nofun⟩
    next noEntry =>
      rw [not_or, not_not] at noEntry
      exact ⟨trivial, fun _ entry isEntry => by rw [noEntry.1] at isEntry; cases isEntry⟩
  cases header.entryPoint with
  | none => exact ⟨trivial, nofun⟩
  | some entry =>
    simp only
    split
    · exact ⟨trivial, nofun⟩
    next inside =>
      obtain ⟨node, -, isNode⟩ := @Checked.exists_get Error _ nodes entry (by omega)
      rw [Checked.bind_ok isNode]
      refine ⟨?_, fun _ other same => Option.some.inj same ▸ Nat.lt_of_not_le inside⟩
      split
      · trivial
      · trivial

theorem checkNeighbors_eq_ok {nodes : List Node} (passes : checkNeighbors header nodes = .ok ())
    {node : Node} (member : node ∈ nodes) :
    ∀ layer ∈ node.neighbors, ∀ link ∈ layer, link < header.nodeCount := by
  unfold checkNeighbors at passes
  split at passes
  · cases passes
  next none =>
    intro layer isLayer link isLink
    obtain ⟨position, found⟩ := List.mem_iff_getElem?.mp member
    by_contra outside
    refine none (List.any_eq_true.mpr ⟨(node, position), ?_, ?_⟩)
    · exact List.mk_mem_zipIdx_iff_getElem?.mpr found
    · exact List.any_eq_true.mpr ⟨layer, isLayer, List.any_eq_true.mpr ⟨link, isLink, by
        simpa using Or.inl (Nat.le_of_not_lt outside)⟩⟩

theorem hashBuckets_le (items : Nat) : hashBuckets items ≤ 8 + 4 * items := by
  unfold hashBuckets
  split
  · omega
  split
  · omega
  have least := Nat.log2_self_le (n := items * 8 / 7 - 1) (by omega)
  rw [Nat.pow_succ]
  omega

theorem Sound.searchable {decoded : Decoded} (sound : Sound mapping header header.nodeCount decoded)
    (addressable : header.nodeCount * header.dimension < 2 ^ 64)
    (entered : ∀ entry, header.entryPoint = some entry → entry < decoded.nodes.length)
    (passes : checkNeighbors header decoded.nodes = .ok ()) {final : HnswIndex}
    (compacts : (decoded.index header).finalizeCompactGraph = .ok final) : final.Searchable := by
  refine .of_compaction rfl compacts sound.layered (fun node member layer isLayer link isLink => ?_)
    (sound.named.trans sound.counted.symm) sound.distinct ?_ ?_ entered
  · exact sound.counted ▸ checkNeighbors_eq_ok passes member layer isLayer link isLink
  · obtain ⟨stored, isCount, holds⟩ := sound.stored
    exact ⟨stored, isCount.trans sound.counted.symm, holds⟩
  · show decoded.nodes.length * header.dimension < 2 ^ 64
    rw [sound.counted]
    exact addressable

/-- What follows a header that leaves room for the vectors is read without a panic, and is a
graph that can be searched. -/
theorem ensures_body (arith : HnswArithmetic) (limited : Limited header)
    (located : Located bytes mapping)
    (room : header.nodeCount * header.dimension ≤ usizeMax → header.arenaBytes mapping < 2 ^ 63) :
    Ensures bytes (body arith mapping header) HnswIndex.Searchable := by
  have few := limited.nodes
  have buckets := hashBuckets_le header.nodeCount
  refine (ensures_capacity (by omega)).bind fun _ _ => (Ensures.reject _ _).bind
    fun _ addressable => ?_
  have fits := room (Nat.le_of_not_lt addressable)
  obtain ⟨vectors, returns, suits, holds⟩ := arena_returns limited located fits
  have small : ∀ count < header.nodeCount, header.storage = .f32 → header.dimension * 4 < 2 ^ 63 := by
    intro count isNode isStorage
    have one : 1 * header.dimension ≤ header.nodeCount * header.dimension :=
      Nat.mul_le_mul_right _ (by omega)
    simp only [GraphHeader.arenaBytes, isStorage] at fits
    omega
  rw [returns]
  refine Ensures.bind (.ofExcept trivial fun _ same => (Except.ok.inj same).symm) ?_
  rintro vectors rfl
  have nodes := @Ensures.iterate Error _ bytes _ (Sound mapping header) header.nodeCount
    (fun count _ isNode sound => ensures_node arith located (small count isNode) sound)
    header.nodeCount 0 ⟨[], [], vectors⟩ (Nat.zero_add _)
    ⟨rfl, rfl, List.nodup_nil, nofun, suits, [], rfl, holds⟩
  refine (ensures_capacity (by omega)).bind fun _ _ => (ensures_capacity (by omega)).bind fun _ _ =>
    nodes.bind fun decoded sound => (Ensures.finish _).bind fun _ _ => ?_
  obtain ⟨settles, entered⟩ := checkEntry_settles sound.counted
  have compactSettles := @HnswIndex.finalizeCompactGraph_settles (decoded.index header) rfl
  refine .ofExcept ?_ fun final returns => ?_
  · refine Checked.settles_bind.mpr ⟨settles, fun _ _ =>
      Checked.settles_ofResult_bind.mpr fun _ _ => ?_⟩
    unfold compact
    split
    · trivial
    · exact compactSettles
  · obtain ⟨_, isEntry, returns⟩ := Checked.of_bind_ok returns
    obtain ⟨_, passes, returns⟩ := Checked.of_bind_ok returns
    refine sound.searchable ?_ (entered isEntry) ?_ ?_
    · unfold usizeMax at addressable
      omega
    · cases outcome : checkNeighbors header decoded.nodes with
      | ok => rfl
      | error => rw [outcome] at passes; cases passes
    · unfold compact at returns
      split at returns
      · cases returns
      · exact returns

theorem body_panics (arith : HnswArithmetic) (limited : Limited header)
    (addressable : header.nodeCount * header.dimension ≤ usizeMax)
    (large : 2 ^ 63 ≤ header.arenaBytes mapping) (cursor : Cursor) :
    body arith mapping header cursor = .error (.panic .capacity) := by
  have few := limited.nodes
  have nodes : (Checked.capacity header.nodeCount 32 : Checking Unit) = .ok () :=
    Checked.capacity_of_lt (by omega)
  unfold body refuse Decoder.reject
  rw [nodes, if_neg addressable.not_gt, arena_panics addressable large]
  rfl

end Nodes

/-- The header, where it is accepted, leaves room for the vectors: they fit the largest
allocation, or not even the address space. -/
def HasRoom (bytes : Bytes) (mapping : Mapping) : Prop :=
  ∀ header cursor, GraphDecoder.header ⟨bytes, 0⟩ = .ok (header, cursor) →
    header.nodeCount * header.dimension ≤ usizeMax → header.arenaBytes mapping < 2 ^ 63

end GraphDecoder

namespace HnswIndex

open GraphDecoder

variable {arith : HnswArithmetic} {bytes : Bytes} {mapping : Mapping} {index : HnswIndex}

/-- Where the header leaves room for the vectors, the decoder returns a graph that can be
searched or fails with an error of its own. -/
theorem decodeInner_of_room (arith : HnswArithmetic) (located : Located bytes mapping)
    (room : HasRoom bytes mapping) :
    (decodeInner arith bytes mapping).Settles ∧
      ∀ index, decodeInner arith bytes mapping = .ok index → index.Searchable := by
  obtain ⟨settles, accepted⟩ := @ensures_header bytes 0 (Nat.zero_le _)
  unfold decodeInner Decoder.run
  cases outcome : GraphDecoder.header ⟨bytes, 0⟩ with
  | error stop =>
    rw [Decoder.bind_error outcome]
    rw [outcome] at settles
    refine ⟨?_, nofun⟩
    cases stop with
    | error => trivial
    | panic => exact settles
    | unfinished => exact settles
  | ok read =>
    obtain ⟨header, _, position⟩ := read
    obtain ⟨rfl, inside, limited⟩ := accepted header _ outcome
    rw [Decoder.bind_ok outcome]
    exact (ensures_body arith limited located (room header _ outcome)).map_fst inside

/-- A header that asks for more than the largest allocation makes the decoder panic. -/
theorem decodeInner_panics (arith : HnswArithmetic) (large : ¬ HasRoom bytes mapping) :
    decodeInner arith bytes mapping = .error (.panic .capacity) := by
  unfold HasRoom at large
  push Not at large
  obtain ⟨header, cursor, accepts, addressable, large⟩ := large
  have limited := ((ensures_header 0 (Nat.zero_le _)).2 header cursor accepts).2.2
  unfold decodeInner Decoder.run
  rw [Decoder.bind_ok accepts, body_panics arith limited addressable large]
  rfl

theorem decodeInner_searchable (located : Located bytes mapping)
    (decodes : decodeInner arith bytes mapping = .ok index) : index.Searchable := by
  refine (decodeInner_of_room arith located ?_).2 index decodes
  by_contra large
  rw [decodeInner_panics arith large] at decodes
  cases decodes

/-- Every graph that the decoder accepts can be searched, whatever lists the bytes hold: a
search with a query of its dimension returns. -/
theorem decoded_graph_safe (arith : HnswArithmetic) (located : Located bytes mapping)
    (decodes : decodeInner arith bytes mapping = .ok index) (pool : List BuildWorkspace)
    {query prepared : List F32} {k efSearch : Nat} (sized : query.length = index.dimension)
    (prepares : index.metric.prepare arith.toFloatArithmetic query = .ok prepared)
    (positive : 1 ≤ k) (wide : k ≤ efSearch) :
    ∃ hits after, index.search arith pool query k efSearch = .ok (hits, after) := by
  have searchable := decodeInner_searchable located decodes
  cases entered : index.entryPoint with
  | some entry =>
    obtain ⟨-, hits, -, -, -, -, -, returns⟩ :=
      searchable.search_returns entered sized prepares positive wide
    exact ⟨hits, returns pool⟩
  | none =>
    refine ⟨[], pool, ?_⟩
    unfold search
    rw [if_neg (by omega), if_neg wide.not_gt, if_neg (not_not.mpr sized), prepares, entered]
    rfl

/-- Two nodes that link to each other, the first one twice, at the end of a file of one more
byte. -/
def linkedNodes : Bytes :=
  graphMagic ++ [graphVersion] ++ u64Bytes 1 ++ [2, 2] ++ u32Bytes 2 ++ u32Bytes 2 ++ u32Bytes 2 ++
    u64Bytes 0 ++ u32Bytes 0 ++ (u32Bytes 1 ++ [0x61]) ++ u32Bytes 0x3f800000 ++ [5] ++
    u32Bytes 1 ++ (u32Bytes 2 ++ u32Bytes 1 ++ u32Bytes 1) ++ (u32Bytes 1 ++ [0x62]) ++
    u32Bytes 0x3f800000 ++ [6] ++ u32Bytes 1 ++ (u32Bytes 1 ++ u32Bytes 0)

def linkedIndex : HnswIndex where
  dimension := 1
  metric := .dotProduct
  config := ⟨2, 2⟩
  nodes := [⟨0, 0, []⟩, ⟨0, 1, []⟩]
  ids := ["a", "b"]
  vectors := .mappedScalarInt8 (0 :: linkedNodes) [49, 75] [⟨0x3f800000⟩, ⟨0x3f800000⟩]
    [⟨0x3f800000⟩, ⟨0x3f800000⟩]
  entryPoint := some 0
  maxLevel := 0
  compactGraph := some ⟨[⟨0, 2⟩, ⟨2, 3⟩], [1, 1, 0]⟩

theorem linked_nodes_are_searched :
    decodeInner .unit linkedNodes (some (0 :: linkedNodes, 1)) = .ok linkedIndex ∧
      ∃ hits after, linkedIndex.search .unit [] [⟨0⟩] 2 2 = .ok (hits, after) := by
  have decodes : decodeInner .unit linkedNodes (some (0 :: linkedNodes, 1)) = .ok linkedIndex := by
    decide +kernel
  refine ⟨decodes, decoded_graph_safe .unit ?_ decodes [] rfl rfl (by decide) le_rfl⟩
  rintro file offset isFile
  obtain ⟨rfl, rfl⟩ := Prod.mk.inj (Option.some.inj isFile)
  exact ⟨by decide +kernel, by decide +kernel⟩

end HnswIndex

end FocalVector.Hnsw
