import FocalVector.Foundation.Buckets
import FocalVector.Persistence.SoundOpening

/-!
Contract: a statically sharded collection.

A request is validated as a whole, cut into one batch for each shard it concerns, and
the batches are committed in the order of the shards.

Owns: which shard an id belongs to, `ShardedCollection`, opening its shards, and its
requests as the shards perform them.

Does not own: what the shards hold after a request, and searches over all shards.
-/

namespace FocalVector.Sharding

open FocalVector.Foundation FocalVector.Engine FocalVector.Persistence

/-! ## Shards -/

/-- `stable_hash`: 64-bit FNV-1a. -/
def stableHash (bytes : Bytes) : UInt64 :=
  bytes.foldl (fun hash byte => (hash ^^^ byte.toUInt64) * 0x100000001b3) 0xcbf29ce484222325

/-- `shard_index`, for a positive number of shards. -/
def shardIndex (id : String) (shardCount : Nat) : Nat :=
  (stableHash (utf8 id)).toNat % shardCount

theorem shardIndex_lt (id : String) {shardCount : Nat} (positive : 0 < shardCount) :
    shardIndex id shardCount < shardCount :=
  Nat.mod_lt _ positive

def shardBatches {α : Type} (key : α → String) (shardCount : Nat) (items : List α) :
    List (List α) :=
  buckets (fun item => shardIndex (key item) shardCount) shardCount items

/-- An open collection of the given configuration in its own directory. -/
structure Shard (backend : IndexBackend) (config : CollectionConfig) where
  disk : Directory
  store : PersistentCollection backend
  sameConfig : store.inner.config = config

structure ShardCommit where
  shard : Nat
  sequence : UInt64
  affectedPoints : Nat
deriving DecidableEq

/-- `ShardedCollection`: at least one shard. -/
structure ShardedCollection (backend : IndexBackend) (config : CollectionConfig) where
  shards : List (Shard backend config)
  nonempty : shards ≠ []

section Operations

variable (arith : FloatArithmetic) {backend : IndexBackend} {config : CollectionConfig}

namespace Shard

/-- `SharedCollection::upsert` and `SharedCollection::delete`, whose lock is free. -/
def perform (shard : Shard backend config) (request : Request) :
    Shard backend config × Result UInt64 :=
  match performs : (shard.store.perform arith request).run shard.disk with
  | (disk, .ok (store, sequence)) =>
    (⟨disk, store, (config_of_perform performs).trans shard.sameConfig⟩, .ok sequence)
  | (disk, .error error) => (⟨disk, shard.store, shard.sameConfig⟩, .error error)

def get (shard : Shard backend config) (id : String) : Option StoredPoint :=
  shard.store.inner.points.get id

def latestSequence (shard : Shard backend config) : UInt64 := shard.store.latestSequence

end Shard

/-- `validate_points`: the whole request is tried on a new collection. -/
def validatePoints (config : CollectionConfig) (points : List UpsertPoint) : Result Unit := do
  let validator ← Collection.new config
  let _ ← validator.upsert arith points
  return ()

def commitBatches {α : Type} (request : List α → Request) :
    Nat → List (Shard backend config) → List (List α) →
      List (Shard backend config) × Result (List ShardCommit)
  | number, shard :: shards, batch :: batches =>
    if batch.isEmpty then
      let (others, commits) := commitBatches request (number + 1) shards batches
      (shard :: others, commits)
    else
      match shard.perform arith (request batch) with
      | (next, .error error) => (next :: shards, .error error)
      | (next, .ok sequence) =>
        let (others, commits) := commitBatches request (number + 1) shards batches
        (next :: others, commits.map (⟨number, sequence, batch.length⟩ :: ·))
  | _, shards, _ => (shards, .ok [])

variable {arith} in
theorem commitBatches_length {α : Type} {request : List α → Request} {number : Nat}
    {shards : List (Shard backend config)} {batches : List (List α)} :
    (commitBatches arith request number shards batches).1.length = shards.length := by
  fun_induction commitBatches arith request number shards batches <;> simp_all

namespace ShardedCollection

variable (sharded : ShardedCollection backend config)

def shardCount : Nat := sharded.shards.length

def commit {α : Type} (request : List α → Request) (batches : List (List α)) :
    ShardedCollection backend config × Result (List ShardCommit) :=
  (⟨(commitBatches arith request 0 sharded.shards batches).1, by
      rw [← List.length_pos_iff, commitBatches_length]
      exact List.length_pos_iff.mpr sharded.nonempty⟩,
    (commitBatches arith request 0 sharded.shards batches).2)

/-- `ShardedCollection::upsert`. -/
def upsert (points : List UpsertPoint) :
    ShardedCollection backend config × Result (List ShardCommit) :=
  if points.isEmpty then
    (sharded, .error (.invalidQuery "upsert batch must not be empty"))
  else
    match validatePoints arith config points with
    | .error error => (sharded, .error error)
    | .ok () => sharded.commit arith .upsert (shardBatches UpsertPoint.id sharded.shardCount points)

/-- `ShardedCollection::delete`. -/
def delete (ids : List String) : ShardedCollection backend config × Result (List ShardCommit) :=
  if ids.isEmpty then
    (sharded, .error (.invalidQuery "delete batch must not be empty"))
  else if ids.any String.isEmpty then
    (sharded, .error (.invalidQuery "point ID must not be empty"))
  else
    sharded.commit arith .delete (shardBatches id sharded.shardCount ids)

def perform : Request → ShardedCollection backend config × Result (List ShardCommit)
  | .upsert points => sharded.upsert arith points
  | .delete ids => sharded.delete arith ids

def performAll (requests : List Request) : Result (ShardedCollection backend config) :=
  requests.foldlM (fun current request =>
    match current.perform arith request with
    | (after, .ok _) => .ok after
    | (_, .error error) => .error error) sharded

end ShardedCollection

def openShards (backend : IndexBackend) (config : CollectionConfig) (durability : Durability) :
    List Directory → List Directory × Result (List (Shard backend config))
  | [] => ([], .ok [])
  | disk :: disks =>
    match opens : (openCollection arith backend config durability).run disk with
    | (next, .error error) => (next :: disks, .error error)
    | (next, .ok store) =>
      match openShards backend config durability disks with
      | (others, .error error) => (next :: others, .error error)
      | (others, .ok shards) =>
        (next :: others, .ok (⟨next, store, config_of_openCollection opens⟩ :: shards))

variable {arith} in
theorem openShards_length {durability : Durability} {disks next : List Directory}
    {shards : List (Shard backend config)}
    (opens : openShards arith backend config durability disks = (next, .ok shards)) :
    shards.length = disks.length := by
  induction disks generalizing next shards with
  | nil =>
    cases opens
    rfl
  | cons disk disks ih =>
    unfold openShards at opens
    split at opens
    · cases opens
    · split at opens
      · cases opens
      next others =>
        cases opens
        exact congrArg (· + 1) (ih others)

/-- `ShardedCollection::open`, with the directory of each shard. -/
def ShardedCollection.openAll (backend : IndexBackend) (config : CollectionConfig)
    (durability : Durability) (disks : List Directory) :
    List Directory × Result (ShardedCollection backend config) :=
  if isEmpty : disks = [] then
    (disks, .error (.invalidConfig "shard count must be greater than zero"))
  else
    match Collection.new config with
    | .error error => (disks, .error error)
    | .ok _ =>
      match opens : openShards arith backend config durability disks with
      | (next, .error error) => (next, .error error)
      | (next, .ok shards) =>
        (next, .ok ⟨shards, fun none_ => isEmpty (List.length_eq_zero_iff.mp (by
          rw [← openShards_length opens, none_]
          rfl))⟩)

end Operations

end FocalVector.Sharding
