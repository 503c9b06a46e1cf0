import EpollChat.Lib.Machine
import Mathlib.Data.Fintype.Basic
import Mathlib.Data.Fintype.Sum
import Mathlib.Logic.Function.Basic
import Mathlib.Tactic.DeriveFintype

/-!
# The threads that share the Redis connections

`RedisConnectionPool::getConnection` blocks until a connection is free; the pointer it
returns gives the connection back when it goes out of scope. A task is embedded here as
far as its connections go: the places where it waits for one, and the places where it
holds some. Connections are alike, so the pool is the number of those that are free.

What matters is which waits happen while a connection is held. `retryLoop` holds one over
all its dispatches. `dispatchDueMessagesForUser` holds one over the end of a round, and
`setPendingAttempt`, called there, waits for another.
-/

namespace EpollChat
namespace ConnectionPool

/-! ## 1. Threads and where they are -/

/-- The threads that use Redis: `m_dbThreadPool`, `m_redisThreadPool` and `m_retryThread`,
    as the constructor makes them. -/
inductive Thread where
  | db (i : Fin 20)
  | redis (i : Fin 16)
  | retry
deriving DecidableEq, Fintype

/-- Where a `dispatchDueMessagesForUser` call is. -/
inductive Stage where
  | fetchWait
  | fetching
  /-- Between two messages. -/
  | loop
  | attemptWait
  | readingAttempt
  | connWait
  /-- `setPendingAttempt` waits, and the round's own connection is held. -/
  | setWait
  | setting
  | rescheduling
deriving DecidableEq, Repr

inductive Pc where
  | idle
  /-- The login task in `getFriendListJson`. -/
  | friendsWait
  | friends
  /-- A task of the Redis threads, in the first of the functions it calls one after
      another (`storePendingMessage`, `ackPendingMessage`, …); `more` are to follow. -/
  | callWait (more : Nat)
  | call (more : Nat)
  /-- `retryLoop`, before and after it has got its connection. -/
  | scanWait
  | scan
  | dispatch (retry : Bool) (stage : Stage)
deriving DecidableEq, Repr

/-- The thread is in `getConnection`. -/
def Stage.waiting : Stage → Bool
  | .fetchWait | .attemptWait | .connWait | .setWait => true
  | _ => false

def Pc.waiting : Pc → Bool
  | .friendsWait | .callWait _ | .scanWait => true
  | .dispatch _ stage => stage.waiting
  | _ => false

/-- The connections a dispatch holds itself. -/
def Stage.held : Stage → Nat
  | .fetching | .readingAttempt | .setWait | .rescheduling => 1
  | .setting => 2
  | _ => 0

def Pc.held : Pc → Nat
  | .friends | .call _ | .scan => 1
  | .dispatch retry stage => (if retry then 1 else 0) + stage.held
  | _ => 0

/-! ## 2. Steps -/

structure State where
  free : Nat
  threads : Thread → Pc := fun _ => .idle

/-- `again` decides what the program does not: whether the session is still valid, whether
    there is another message or user, whether the message is to be sent. -/
inductive Label where
  | login (i : Fin 20)
  | redisTask (i : Fin 16) (more : Nat)
  | retryScan
  | acquire (t : Thread)
  | proceed (t : Thread) (again : Bool)
deriving DecidableEq

def setThread (s : State) (t : Thread) (pc : Pc) : State :=
  { s with threads := Function.update s.threads t pc }

/-- Where a thread is once `getConnection` has returned. -/
def acquired : Pc → Pc
  | .friendsWait => .friends
  | .callWait more => .call more
  | .scanWait => .scan
  | .dispatch retry .fetchWait => .dispatch retry .fetching
  | .dispatch retry .attemptWait => .dispatch retry .readingAttempt
  | .dispatch retry .connWait => .dispatch retry .setWait
  | .dispatch retry .setWait => .dispatch retry .setting
  | pc => pc

/-- Where a thread that is not waiting goes next, and how many connections go back. -/
def proceed : Pc → Bool → Option (Pc × Nat)
  | .friends, again => some (if again then .dispatch false .fetchWait else .idle, 1)
  | .call 0, _ => some (.idle, 1)
  | .call (more + 1), _ => some (.callWait more, 1)
  | .scan, true => some (.dispatch true .fetchWait, 0)
  | .scan, false => some (.idle, 1)
  | .dispatch retry .fetching, _ => some (.dispatch retry .loop, 1)
  | .dispatch retry .loop, true => some (.dispatch retry .attemptWait, 0)
  | .dispatch retry .loop, false => some (if retry then .scan else .idle, 0)
  | .dispatch retry .readingAttempt, again =>
      some (.dispatch retry (if again then .connWait else .loop), 1)
  | .dispatch retry .setting, _ => some (.dispatch retry .rescheduling, 1)
  | .dispatch retry .rescheduling, _ => some (.dispatch retry .loop, 1)
  | _, _ => none

/-- A task starts on an idle thread. -/
def startTask (s : State) (t : Thread) (pc : Pc) : Option (State × List Unit) :=
  if s.threads t = .idle then some (setThread s t pc, []) else none

def step (s : State) : Label → Option (State × List Unit)
  | .login i => startTask s (.db i) .friendsWait
  | .redisTask i more => startTask s (.redis i) (.callWait more)
  | .retryScan => startTask s .retry .scanWait
  | .acquire t =>
      if (s.threads t).waiting = true ∧ 0 < s.free then
        some (setThread { s with free := s.free - 1 } t (acquired (s.threads t)), [])
      else none
  | .proceed t again =>
      match proceed (s.threads t) again with
      | none => none
      | some (pc, released) => some (setThread { s with free := s.free + released } t pc, [])

/-- `init` of a pool of `n` connections. -/
def initial (n : Nat) : State := { free := n }

end ConnectionPool
end EpollChat
