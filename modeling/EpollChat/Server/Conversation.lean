import EpollChat.Ids.Snowflake
import EpollChat.Lib.Machine
import EpollChat.Wire.Chat
import Mathlib.Algebra.GroupWithZero.Nat
import Mathlib.Logic.Function.Basic

/-!
# A chat packet on its way through two pools

`handleRead` makes a task of every packet and leaves it to the business pool; its worker takes
an id, looks up the target and makes a second task, for the Redis pool; that pool's worker
stores the message, acknowledges it to the sender and passes it to the target's connection.
The queues are first in, first out. The workers are not: between any two steps of one, any other
may move, and nothing binds the packets of a connection to a worker.

The pools also have other tasks, and the queues are bounded: whether a task is accepted is part of
the label. `number` tells how many packets came before; the server does not know it.
-/

namespace EpollChat
namespace Conversation

/-- `m_threadPool(12, kBizQueueLimit)`. -/
def businessThreads : Nat := 12

/-- `std::make_unique<ThreadPool>(16)`. -/
def redisThreads : Nat := 16

instance : NeZero businessThreads := ⟨Nat.succ_ne_zero _⟩

instance : NeZero redisThreads := ⟨Nat.succ_ne_zero _⟩

/-! ## 1. States -/

/-- A packet of type 1 from connection `conn`. -/
structure Packet where
  number : Nat
  conn : Nat
  body : Bytes
deriving DecidableEq, Repr

def Packet.target (p : Packet) : Bytes := (chatFields p.body).2.1

/-- What the Redis task captures. -/
structure Task where
  packet : Packet
  msgId : UInt64
  enrichedBody : Bytes
  targetCtx : Option Nat
deriving DecidableEq, Repr

/-- Where a business worker is in `processPacket`. -/
inductive BizPc where
  | waiting
  /-- Before `nextMsgId`. -/
  | chat (p : Packet)
  /-- Before `getOnlineCtx`. -/
  | numbered (p : Packet) (msgId : UInt64) (enrichedBody : Bytes)
  /-- Before `enqueueRedisTask`. -/
  | routed (t : Task)
deriving DecidableEq, Repr

/-- Where a Redis worker is in the task. -/
inductive RedisPc where
  | waiting
  | storing (t : Task)
  | acking (t : Task)
  | sending (t : Task)
deriving DecidableEq, Repr

/-- `online` is the table of `getOnlineCtx`. -/
structure State where
  arrivals : Nat := 0
  tasks : List Packet := []
  biz : Fin businessThreads → BizPc := fun _ => .waiting
  redisTasks : List Task := []
  redis : Fin redisThreads → RedisPc := fun _ => .waiting
  msgIdGen : SnowflakeIdGenerator
  online : Bytes → Option Nat := fun _ => none

/-- `clock` are the readings of one `nextMsgId`; `accepted`, `stored`, `valid` and `queued` are the
    answers of `try_enqueue` and `enqueueRedisTask`, of `storePendingMessage`, of
    `isCurrentSessionValid` for the sender, and of `sendPacket`'s limit check. -/
inductive Label where
  | arrive (conn : Nat) (body : Bytes) (accepted : Bool)
  | setOnline (user : Bytes) (ctx : Option Nat)
  | take (w : Fin businessThreads)
  | number (w : Fin businessThreads) (clock : List UInt64) (ts : Bytes)
  | lookup (w : Fin businessThreads)
  | queue (w : Fin businessThreads) (accepted : Bool)
  | takeTask (v : Fin redisThreads)
  | store (v : Fin redisThreads) (stored : Bool)
  | ack (v : Fin redisThreads) (valid : Bool)
  | send (v : Fin redisThreads) (queued : Bool)
deriving DecidableEq, Repr

/-- `sent` is a `sendPacket` on the target's connection; the frame is enqueued there if `queued`. -/
inductive Event where
  | accepted (p : Packet)
  | refused (p : Packet)
  | numbered (p : Packet) (msgId : UInt64)
  | broadcast (p : Packet) (msgId : UInt64)
  | stored (t : Task)
  | acked (t : Task)
  | sent (t : Task) (queued : Bool)
deriving DecidableEq, Repr

/-! ## 2. Steps -/

def setBiz (s : State) (w : Fin businessThreads) (pc : BizPc) : State :=
  { s with biz := Function.update s.biz w pc }

def setRedis (s : State) (v : Fin redisThreads) (pc : RedisPc) : State :=
  { s with redis := Function.update s.redis v pc }

/-- The hand-over loop of `handleRead`. -/
def arrive (s : State) (conn : Nat) (body : Bytes) (accepted : Bool) : State × List Event :=
  let p : Packet := ⟨s.arrivals, conn, body⟩
  if accepted then
    ({ s with arrivals := s.arrivals + 1, tasks := s.tasks ++ [p] }, [.accepted p])
  else ({ s with arrivals := s.arrivals + 1 }, [.refused p])

/-- `nextMsgId` and `buildEnrichedChatBodyWithMsgId`. -/
def number (s : State) (w : Fin businessThreads) (p : Packet) (clock : List UInt64) (ts : Bytes) :
    Option (State × List Event) :=
  match s.msgIdGen.nextId clock with
  | some (g, [e]) =>
      let (sender, target, content) := chatFields p.body
      some (setBiz { s with msgIdGen := g } w (.numbered p e.id
          (buildEnrichedChatBodyWithMsgId e.id.toNat sender target content ts)),
        [.numbered p e.id])
  | _ => none

/-- A broadcast is sent at once, to everybody. -/
def lookup (s : State) (w : Fin businessThreads) (p : Packet) (msgId : UInt64) (enrichedBody : Bytes) :
    State × List Event :=
  if p.target = ascii "broadcast" then (setBiz s w .waiting, [.broadcast p msgId])
  else (setBiz s w (.routed ⟨p, msgId, enrichedBody, s.online p.target⟩), [])

def queue (s : State) (w : Fin businessThreads) (t : Task) (accepted : Bool) : State :=
  setBiz { s with redisTasks := if accepted then s.redisTasks ++ [t] else s.redisTasks } w .waiting

/-- `storePendingMessage` refuses an empty target; if it returns false the task is over. -/
def store (s : State) (v : Fin redisThreads) (t : Task) (stored : Bool) : State × List Event :=
  if stored = true ∧ t.packet.target ≠ [] then (setRedis s v (.acking t), [.stored t])
  else (setRedis s v .waiting, [])

/-- `isCurrentSessionValid(targetCtx, targetCtx->fd)` compares a number with itself. -/
def send (s : State) (v : Fin redisThreads) (t : Task) (queued : Bool) : State × List Event :=
  (setRedis s v .waiting, if t.targetCtx.isSome then [.sent t queued] else [])

def step (s : State) : Label → Option (State × List Event)
  | .arrive conn body accepted => some (arrive s conn body accepted)
  | .setOnline user ctx => some ({ s with online := Function.update s.online user ctx }, [])
  | .take w =>
      match s.biz w, s.tasks with
      | .waiting, p :: rest => some (setBiz { s with tasks := rest } w (.chat p), [])
      | _, _ => none
  | .number w clock ts =>
      match s.biz w with
      | .chat p => number s w p clock ts
      | _ => none
  | .lookup w =>
      match s.biz w with
      | .numbered p msgId enrichedBody => some (lookup s w p msgId enrichedBody)
      | _ => none
  | .queue w accepted =>
      match s.biz w with
      | .routed t => some (queue s w t accepted, [])
      | _ => none
  | .takeTask v =>
      match s.redis v, s.redisTasks with
      | .waiting, t :: rest => some (setRedis { s with redisTasks := rest } v (.storing t), [])
      | _, _ => none
  | .store v stored =>
      match s.redis v with
      | .storing t => some (store s v t stored)
      | _ => none
  | .ack v valid =>
      match s.redis v with
      | .acking t => some (setRedis s v (.sending t), if valid then [.acked t] else [])
      | _ => none
  | .send v queued =>
      match s.redis v with
      | .sending t => some (send s v t queued)
      | _ => none

/-- The server at its start, on a thread whose id hashes to `hash`. -/
def start (hash : UInt64) : State := { msgIdGen := .create hash }

end Conversation
end EpollChat
