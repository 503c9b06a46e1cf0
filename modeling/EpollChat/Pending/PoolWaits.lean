import EpollChat.Lib.Condition
import EpollChat.Pending.Pools

/-!
# How threads wait for a connection

`Pending.Pools` lets a thread take a connection in one step when there is one. In the source it waits on a
condition variable, one in each pool, and the deleter of a connection notifies it: `redisCond` puts that
of `RedisConnectionPool` around the machine of both pools, and `dbCond` that of `DBConnectionPool`
around the result.
-/

namespace EpollChat
namespace Pools

open Lib

/-- The connections a step gives back to the Redis pool, each with a `notify_one`. -/
def released (s : State) : Label → Nat
  | .redis (.proceed t again) =>
      match ConnectionPool.proceed (s.redis.threads t) again with
      | some (_, n) => n
      | none => 0
  | _ => 0

/-- `RedisConnectionPool::getConnection`, with the predicate `!m_connections.empty()`. -/
def redisCond : Condition.System State Label Unit Thread where
  step := step
  resumes _ l :=
    match l with
    | .redis (.acquire t) => some (.server t)
    | _ => none
  atWait s t := decide (waitsFor s t = some .redis)
  ready s := s.redis.free
  flooded _ := false
  notifies := released

/-- `DBConnectionPool::getConnection`. -/
def dbCond :
    Condition.System (Condition.State State Thread) (Condition.Label Label Thread) Unit Thread where
  step := redisCond.waitStep
  resumes _ l :=
    match l with
    | .step (.acquire t) => some t
    | _ => none
  atWait s t := decide (waitsFor s.base t = some .db)
  ready s := s.base.dbFree
  flooded _ := false
  notifies _ l :=
    match l with
    | .step (.release _) => 1
    | _ => 0

/-- Both pools and both condition variables, `n` connections to Redis and `m` to MySQL. -/
def start (n m : Nat) : Condition.State (Condition.State State Thread) Thread :=
  { base := { base := initial n m } }

/-- The thread is in the middle of something. -/
def Busy (s : State) (t : Thread) : Prop :=
  s.db t ≠ .none ∨ ∃ u, t = .server u ∧ s.redis.threads u ≠ .idle

/-- The steps of threads that are. -/
def Label.isWork : Label → Bool
  | .redis (.acquire _) => true
  | .redis (.proceed _ _) => true
  | .acquire _ => true
  | .release _ => true
  | _ => false

end Pools
end EpollChat
