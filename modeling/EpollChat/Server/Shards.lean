import EpollChat.Lib.Shards
import EpollChat.Server.Registry

/-!
# The tables as they are: in shards

`Server.Registry` has one table of clients and one of online users. Here are the two arrays of
shards the server keeps, with the functions that lock one shard each, and the one that locks them
all, one after another: `snapshotAllClients`, which a broadcast starts with. While it goes from shard
to shard, clients come and go, and other broadcasts run.
-/

namespace EpollChat

open Lib

def kShardCount : Nat := 128

def clientShardIndex (fd : Nat) : Fin kShardCount := ⟨fd % kShardCount, Nat.mod_lt _ (by decide)⟩

/-- `hash` is `std::hash<std::string>`. -/
def userShardIndex (hash : Bytes → UInt64) (accountID : Bytes) : Fin kShardCount :=
  ⟨(hash accountID).toNat % kShardCount, Nat.mod_lt _ (by decide)⟩

structure ShardedRegistry (hash : Bytes → UInt64) where
  contexts : Nat → Option ClientContext := fun _ => none
  nextCtx : Nat := 0
  clientShards : Sharded clientShardIndex Nat := .empty
  onlineUserShards : Sharded (userShardIndex hash) Nat := .empty

/-! ## 1. What locks one shard -/

namespace ShardedRegistry

variable {hash : Bytes → UInt64}

def makeCtx (r : ShardedRegistry hash) (fd : Nat) : ShardedRegistry hash :=
  { r with
    contexts := Function.update r.contexts r.nextCtx (some { fd := fd })
    nextCtx := r.nextCtx + 1 }

def destroyCtx (r : ShardedRegistry hash) (c : Nat) : ShardedRegistry hash :=
  { r with contexts := Function.update r.contexts c none }

def addClientCtx (r : ShardedRegistry hash) (c fd : Nat) : ShardedRegistry hash :=
  { r with clientShards := r.clientShards.insert fd c }

def removeClientCtx (r : ShardedRegistry hash) (fd : Nat) : ShardedRegistry hash :=
  { r with clientShards := r.clientShards.erase fd }

def getClientCtxByFd (r : ShardedRegistry hash) (fd : Nat) : Option Nat := r.clientShards.lookup fd

def setOnlineUser (r : ShardedRegistry hash) (accountID : Bytes) (c : Nat) : ShardedRegistry hash :=
  if accountID = [] then r
  else { r with onlineUserShards := r.onlineUserShards.insert accountID c }

def getOnlineCtx (r : ShardedRegistry hash) (accountID : Bytes) : Option Nat :=
  if accountID = [] then none
  else match r.onlineUserShards.lookup accountID with
    | none => none
    | some c => if (r.contexts c).isSome then some c else none

def removeOnlineUser (r : ShardedRegistry hash) (accountID : Bytes) : ShardedRegistry hash :=
  if accountID = [] then r
  else { r with onlineUserShards := r.onlineUserShards.erase accountID }

section

variable (r : ShardedRegistry hash) (accountID : Bytes)

@[simp] theorem setOnlineUser_clientShards (c : Nat) :
    (r.setOnlineUser accountID c).clientShards = r.clientShards := by
  unfold setOnlineUser
  split <;> rfl

@[simp] theorem setOnlineUser_contexts (c : Nat) :
    (r.setOnlineUser accountID c).contexts = r.contexts := by
  unfold setOnlineUser
  split <;> rfl

@[simp] theorem setOnlineUser_nextCtx (c : Nat) :
    (r.setOnlineUser accountID c).nextCtx = r.nextCtx := by
  unfold setOnlineUser
  split <;> rfl

@[simp] theorem removeOnlineUser_clientShards :
    (r.removeOnlineUser accountID).clientShards = r.clientShards := by
  unfold removeOnlineUser
  split <;> rfl

@[simp] theorem removeOnlineUser_contexts :
    (r.removeOnlineUser accountID).contexts = r.contexts := by
  unfold removeOnlineUser
  split <;> rfl

@[simp] theorem removeOnlineUser_nextCtx : (r.removeOnlineUser accountID).nextCtx = r.nextCtx := by
  unfold removeOnlineUser
  split <;> rfl

end

/-- The tables without their shards. -/
def flatten (r : ShardedRegistry hash) : Registry where
  contexts := r.contexts
  nextCtx := r.nextCtx
  clients := r.clientShards.lookup
  users := r.onlineUserShards.lookup

end ShardedRegistry

/-! ## 2. Calls -/

inductive RegistryCall where
  | makeCtx (fd : Nat)
  | destroyCtx (c : Nat)
  | addClientCtx (c fd : Nat)
  | removeClientCtx (fd : Nat)
  | getClientCtxByFd (fd : Nat)
  | setOnlineUser (accountID : Bytes) (c : Nat)
  | getOnlineCtx (accountID : Bytes)
  | removeOnlineUser (accountID : Bytes)
deriving DecidableEq, Repr

/-- A call, and what it returns if it returns something. -/
def ShardedRegistry.call {hash : Bytes → UInt64} (r : ShardedRegistry hash) :
    RegistryCall → Option (ShardedRegistry hash × List (Option Nat))
  | .makeCtx fd => some (r.makeCtx fd, [])
  | .destroyCtx c => some (r.destroyCtx c, [])
  | .addClientCtx c fd => some (r.addClientCtx c fd, [])
  | .removeClientCtx fd => some (r.removeClientCtx fd, [])
  | .getClientCtxByFd fd => some (r, [r.getClientCtxByFd fd])
  | .setOnlineUser accountID c => some (r.setOnlineUser accountID c, [])
  | .getOnlineCtx accountID => some (r, [r.getOnlineCtx accountID])
  | .removeOnlineUser accountID => some (r.removeOnlineUser accountID, [])

def Registry.call (r : Registry) : RegistryCall → Option (Registry × List (Option Nat))
  | .makeCtx fd => some (r.makeCtx fd, [])
  | .destroyCtx c => some (r.destroyCtx c, [])
  | .addClientCtx c fd => some (r.addClientCtx c fd, [])
  | .removeClientCtx fd => some (r.removeClientCtx fd, [])
  | .getClientCtxByFd fd => some (r, [r.getClientCtxByFd fd])
  | .setOnlineUser accountID c => some (r.setOnlineUser accountID c, [])
  | .getOnlineCtx accountID => some (r, [r.getOnlineCtx accountID])
  | .removeOnlineUser accountID => some (r.removeOnlineUser accountID, [])

/-! ## 3. Broadcasts -/

namespace Broadcast

inductive Pc where
  | idle
  /-- `snapshotAllClients`: the shards to come, and the targets so far. -/
  | snapshot (sender : Nat) (shards : List (Fin kShardCount)) (targets : List Nat)
  /-- The loop over the targets. -/
  | send (sender : Nat) (targets : List Nat)
deriving DecidableEq

structure State (hash : Bytes → UInt64) where
  registry : ShardedRegistry hash := {}
  threads : Nat → Pc := fun _ => .idle

/-- `order` is the order in which a hash table goes through its entries. -/
inductive Label where
  | accept (fd : Nat)
  | removeClientCtx (fd : Nat)
  | setOnlineUser (accountID : Bytes) (c : Nat)
  | removeOnlineUser (accountID : Bytes)
  | broadcast (t sender : Nat)
  | readShard (t : Nat) (order : List Nat)
  | sendPacket (t : Nat)
deriving DecidableEq, Repr

inductive Event where
  /-- Thread `t` sends the message, to `c`. -/
  | sent (t c : Nat)
  /-- It sends the ACK, to the sender. -/
  | acked (t sender : Nat)
deriving DecidableEq, Repr

def Event.thread : Event → Nat
  | .sent t _ => t
  | .acked t _ => t

variable {hash : Bytes → UInt64}

def setThread (s : State hash) (t : Nat) (pc : Pc) : State hash :=
  { s with threads := Function.update s.threads t pc }

def readShard (s : State hash) (t : Nat) (order : List Nat) : Option (State hash × List Event) :=
  match s.threads t with
  | .snapshot sender (i :: shards) targets =>
      if order.Perm (s.registry.clientShards.values i) then
        some (setThread s t
          (match shards with
            | [] => .send sender (targets ++ order)
            | _ :: _ => .snapshot sender shards (targets ++ order)), [])
      else none
  | _ => none

def sendPacket (s : State hash) (t : Nat) : Option (State hash × List Event) :=
  match s.threads t with
  | .send sender (c :: targets) => some (setThread s t (.send sender targets), [.sent t c])
  | .send sender [] => some (setThread s t .idle, [.acked t sender])
  | _ => none

def step (s : State hash) : Label → Option (State hash × List Event)
  | .accept fd =>
      let r := s.registry
      some ({ s with registry := (r.makeCtx fd).addClientCtx r.nextCtx fd }, [])
  | .removeClientCtx fd => some ({ s with registry := s.registry.removeClientCtx fd }, [])
  | .setOnlineUser accountID c =>
      some ({ s with registry := s.registry.setOnlineUser accountID c }, [])
  | .removeOnlineUser accountID =>
      some ({ s with registry := s.registry.removeOnlineUser accountID }, [])
  | .broadcast t sender =>
      match s.threads t with
      | .idle => some (setThread s t (.snapshot sender (List.finRange kShardCount) []), [])
      | _ => none
  | .readShard t order => readShard s t order
  | .sendPacket t => sendPacket s t

def initial (hash : Bytes → UInt64) : State hash := {}

/-- The descriptor of a context; it never changes. -/
def fdOf (s : State hash) (c : Nat) : Option Nat := (s.registry.contexts c).map (·.fd)

end Broadcast
end EpollChat
