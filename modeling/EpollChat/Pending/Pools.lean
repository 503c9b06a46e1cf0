import EpollChat.Lib.Threads
import EpollChat.Pending.ConnectionPool

/-!
# Both connection pools

`Pending.ConnectionPool` follows the threads through the Redis pool alone. Here they use the MySQL pool
as well (`DBConnectionPool`), and so does the thread that flushes the chat log. Every function
that uses MySQL takes one connection at its beginning and gives it back at its end, and calls nothing
in between that takes another one.

The one place where the two pools meet is `getFriendListJson`: on a miss of the cache it waits for a
MySQL connection while it holds one of Redis.
-/

namespace EpollChat
namespace Pools

open Lib.Threads (Waits)

inductive Thread where
  | server (t : ConnectionPool.Thread)
  /-- `m_chatLogFlushThread`. -/
  | flush
deriving DecidableEq, Fintype

/-- Where a thread is with MySQL. -/
inductive DbStage where
  | none
  /-- In `DBConnectionPool::getConnection`. -/
  | waiting
  | holding
deriving DecidableEq, Repr

def DbStage.held : DbStage → Nat
  | .holding => 1
  | _ => 0

structure State where
  redis : ConnectionPool.State
  dbFree : Nat
  db : Thread → DbStage := fun _ => .none

/-- Where a thread may be when it calls a function that uses MySQL: a task of the MySQL threads
    that holds nothing (`checkLoginFromDatabase`, `userExistsInDB`, `addFriendToDB`, the history
    query) or is in `getFriendListJson`, a task of the Redis threads in the same function, and the
    flush thread (`flushChatLogsBatch`). -/
def mayUseDb (s : State) : Thread → Bool
  | .server (.db i) => s.redis.threads (.db i) = .idle ∨ s.redis.threads (.db i) = .friends
  | .server (.redis i) => match s.redis.threads (.redis i) with
      | .call _ => true
      | _ => false
  | .server .retry => false
  | .flush => true

/-- The thread that takes a step in the Redis pool. -/
def redisThread : ConnectionPool.Label → ConnectionPool.Thread
  | .login i => .db i
  | .redisTask i _ => .redis i
  | .retryScan => .retry
  | .acquire t => t
  | .proceed t _ => t

inductive Label where
  | redis (l : ConnectionPool.Label)
  | getConnection (t : Thread)
  | acquire (t : Thread)
  | release (t : Thread)
deriving DecidableEq

def setDb (s : State) (t : Thread) (stage : DbStage) : State :=
  { s with db := Function.update s.db t stage }

def step (s : State) : Label → Option (State × List Unit)
  | .redis l =>
      if s.db (.server (redisThread l)) = .none then
        (ConnectionPool.step s.redis l).map fun p => ({ s with redis := p.1 }, p.2)
      else none
  | .getConnection t =>
      if s.db t = .none ∧ mayUseDb s t = true then some (setDb s t .waiting, []) else none
  | .acquire t =>
      if s.db t = .waiting ∧ 0 < s.dbFree then
        some (setDb { s with dbFree := s.dbFree - 1 } t .holding, [])
      else none
  | .release t =>
      if s.db t = .holding then some (setDb { s with dbFree := s.dbFree + 1 } t .none, []) else none

/-- `n` connections to Redis, `m` to MySQL. -/
def initial (n m : Nat) : State := { redis := ConnectionPool.initial n, dbFree := m }

/-! ## Who waits for what -/

inductive Pool where
  | redis
  | db
deriving DecidableEq, Repr

def redisHeld (s : State) : Thread → Nat
  | .server t => (s.redis.threads t).held
  | .flush => 0

def waitsFor (s : State) (t : Thread) : Option Pool :=
  match s.db t, t with
  | .waiting, _ => some .db
  | .holding, _ => none
  | .none, .server t => if (s.redis.threads t).waiting then some .redis else none
  | .none, .flush => none

def waits (s : State) : Waits Thread Pool where
  free
    | .redis => s.redis.free
    | .db => s.dbFree
  held
    | t, .redis => redisHeld s t
    | t, .db => (s.db t).held
  waitsFor := waitsFor s

end Pools
end EpollChat
