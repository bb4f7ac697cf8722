import FocalVector.Raft.Cluster
import FocalVector.Sharding.ShardedCollection
import Mathlib.Data.List.Induction

/-!
Contract: every request takes effect once.

A command carries the identity of its request. The first entry with an identity
is decided, carried out and remembered together with its response; every later
one changes nothing and is answered with that response. A write to several
shards keeps one identity in all of them, so its attempts may reach any shards
any number of times.

Owns: `firstOccurrences`, `firstAnswer`, what the dedup table holds, and the
commands of a distributed write.

Does not own: how a command reaches the leader of a shard.
-/

namespace FocalVector.Raft

open FocalVector.Foundation FocalVector.Engine FocalVector.Persistence FocalVector.Sharding

/-! ## The dedup table -/

def Entry.identity (entry : Entry) : Option (String × UInt64) :=
  match entry.payload with
  | .normal command => some (commandIdentity command)
  | _ => none

section

variable (arith : FloatArithmetic)

end

section Answers

variable {arith : FloatArithmetic} {identity : String × UInt64}

variable {entry : Entry}

/-- Two states that differ at most in what was applied last. -/
def SameEffect (left right : ShardState) : Prop :=
  left.collection = right.collection ∧ left.dedup = right.dedup

theorem SameEffect.advance {left right : ShardState} (same : SameEffect left right)
    (entry : Entry) : SameEffect (Raft.advance arith left entry) (Raft.advance arith right entry) := by
  obtain ⟨sameCollection, sameDedup⟩ := same
  obtain ⟨logId, payload⟩ := entry
  cases payload with
  | blank => exact ⟨sameCollection, sameDedup⟩
  | membership membership => exact ⟨sameCollection, sameDedup⟩
  | normal command =>
    unfold Raft.advance
    simp only [sameCollection, sameDedup]
    split <;> exact ⟨rfl, rfl⟩

variable {config : CollectionConfig} {log : List Entry} {position : Nat}

end Answers

/-! ## Writes to several shards -/

inductive DistributedWrite where
  | upsert (clientId : String) (requestId : UInt64) (points : List UpsertPoint)
  | delete (clientId : String) (requestId : UInt64) (ids : List String)

namespace DistributedWrite

def identity : DistributedWrite → String × UInt64
  | .upsert clientId requestId _ => (clientId, requestId)
  | .delete clientId requestId _ => (clientId, requestId)

def shardCommands {α : Type} (key : α → String) (command : List α → ShardCommand)
    (shardCount : Nat) (items : List α) : List (Nat × ShardCommand) :=
  ((shardBatches key shardCount items).zipIdx.filter fun batch => !batch.1.isEmpty).map
    fun batch => (batch.2, command batch.1)

/-- The commands that `DistributedCollection::upsert` and `delete` send. -/
def commands (shardCount : Nat) : DistributedWrite → Result (List (Nat × ShardCommand))
  | .upsert clientId requestId points =>
    if points.isEmpty then .error (.invalidQuery "upsert batch must not be empty")
    else .ok (shardCommands UpsertPoint.id (.upsert clientId requestId) shardCount points)
  | .delete clientId requestId ids =>
    if ids.isEmpty || ids.any String.isEmpty then
      .error (.invalidQuery "delete IDs must be non-empty")
    else .ok (shardCommands id (.delete clientId requestId) shardCount ids)

end DistributedWrite

/-- What reaches the logs of the shards: an attempt of a write, which gets to
some of the shards, or an entry from elsewhere. -/
inductive Arrival where
  | attempt (reached : Nat → Option LogId)
  | other (shard : Nat) (entry : Entry)

def arrive (commands : List (Nat × ShardCommand)) (logs : Nat → List Entry) (arrival : Arrival)
    (shard : Nat) : List Entry :=
  match arrival with
  | .attempt reached =>
    match reached shard, commands.lookup shard with
    | some logId, some command => logs shard ++ [⟨logId, .normal command⟩]
    | _, _ => logs shard
  | .other target entry => if shard = target then logs shard ++ [entry] else logs shard

def Reaches (commands : List (Nat × ShardCommand)) (shard : Nat) (arrival : Arrival) : Prop :=
  ∃ reached, arrival = .attempt reached ∧ (reached shard).isSome ∧ (commands.lookup shard).isSome

section Arrivals

variable {write : DistributedWrite} {shardCount shard : Nat} {commands : List (Nat × ShardCommand)}

end Arrivals

/-! ## Exactly once -/

section

variable {config : CollectionConfig} {log : List Entry}

end

end FocalVector.Raft
