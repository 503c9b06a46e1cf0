import EpollChat.Server.ThreadPool
import Mathlib.Algebra.BigOperators.Fin

/-!
# Admission to the worker queues

`enqueueDbTask` and `enqueueRedisTask` do the same with two counters and two pools: count the task
in, look at what the count was, and take it back if it was too much. A task that gets in is
wrapped, so that it counts itself out when it is done. The counters are atomics and nothing else
is: between any two operations of one thread, any other may have come.

A call is in progress on behalf of some `i : ι`, a thread or a task that runs on one; each step is
one operation of one of them. `ThreadPool` is the pool as it is, and its tasks are the wrapped
ones. What the statistics (`g_workerQueueDepth` and its like) are told is left out: nothing reads
them here.
-/

namespace EpollChat
namespace Admission

def kWorkerQueueLimit : Nat := 20000

inductive Kind where
  | db
  | redis
deriving DecidableEq, Repr

/-! ## 1. States -/

/-- Where a call of `enqueueDbTask` or `enqueueRedisTask` is. -/
inductive CallPc where
  | idle
  /-- Behind `fetch_add(1) + 1`. -/
  | counted (depth : Nat)
  /-- The depth is above the limit, and its `fetch_sub` comes next. -/
  | refused
  /-- It is not, and the pool's `enqueue` comes next. -/
  | accepted
deriving DecidableEq, Repr

/-- How far a wrapped task is. -/
inductive Wrapped where
  /-- `task()` has not returned. -/
  | unfinished
  /-- It has, and the `fetch_sub` comes next. -/
  | finished
  | counted
deriving DecidableEq, Repr

/-- One of the two queues, for callers `ι` and a pool of `threads` workers. `depth` is
    `m_dbTaskQueueDepth` or `m_redisTaskQueueDepth`. -/
structure Queue (ι : Type) (threads : Nat) where
  depth : Nat := 0
  calls : ι → CallPc := fun _ => .idle
  pool : ThreadPool.State Wrapped threads := ThreadPool.create Wrapped threads 0

/-- The two queues of a server. -/
abbrev State (ι : Type) (threads : Kind → Nat) := (k : Kind) → Queue ι (threads k)

inductive Event where
  | accepted
  | refused
  /-- A `fetch_sub` found 0. -/
  | underflow
deriving DecidableEq, Repr

/-- What the workers of a pool do. -/
inductive Action (threads : Nat) where
  /-- `task()` returns. -/
  | finish (w : Fin threads)
  /-- The rest of the wrapped task. -/
  | fetchSub (w : Fin threads)
  /-- A step of the pool's own. -/
  | worker (w : Fin threads)
deriving DecidableEq, Repr

inductive Label (ι : Type) (threads : Kind → Nat) where
  /-- The next operation of a call. -/
  | enqueueDbTask (i : ι)
  | enqueueRedisTask (i : ι)
  | pool (k : Kind) (a : Action (threads k))

section

variable {ι : Type} [DecidableEq ι] {threads : Nat}

/-! ## 2. Operations -/

/-- `fetch_sub(1)` of a `size_t`. -/
def fetchSub (depth : Nat) : Nat × List Event :=
  if depth = 0 then (2 ^ 64 - 1, [.underflow]) else (depth - 1, [])

def setCall (q : Queue ι threads) (i : ι) (pc : CallPc) : Queue ι threads :=
  { q with calls := Function.update q.calls i pc }

def setTask (q : Queue ι threads) (w : Fin threads) (t : Wrapped) : Queue ι threads :=
  { q with pool := ThreadPool.setWorker q.pool w (.running t) }

/-- What the two functions have in common: the next operation of the call of `i`. -/
def enqueueTask (q : Queue ι threads) (i : ι) : Queue ι threads × List Event :=
  match q.calls i with
  | .idle => ({ setCall q i (.counted (q.depth + 1)) with depth := q.depth + 1 }, [])
  | .counted depth =>
      if kWorkerQueueLimit < depth then (setCall q i .refused, []) else (setCall q i .accepted, [])
  | .refused =>
      ({ setCall q i .idle with depth := (fetchSub q.depth).1 }, (fetchSub q.depth).2 ++ [.refused])
  | .accepted =>
      ({ setCall q i .idle with pool := ThreadPool.enqueue q.pool .unfinished }, [.accepted])

/-- The operations of one queue's pool. A worker is not done with a task that is not counted out. -/
def poolStep (q : Queue ι threads) : Action threads → Option (Queue ι threads × List Event)
  | .finish w =>
      match q.pool.workers w with
      | .running .unfinished => some (setTask q w .finished, [])
      | _ => none
  | .fetchSub w =>
      match q.pool.workers w with
      | .running .finished =>
          some ({ setTask q w .counted with depth := (fetchSub q.depth).1 }, (fetchSub q.depth).2)
      | _ => none
  | .worker w =>
      match q.pool.workers w with
      | .running .unfinished => none
      | .running .finished => none
      | _ =>
          match ThreadPool.workerStep q.pool w with
          | none => none
          | some (pool, _) => some ({ q with pool := pool }, [])

end

/-! ## 3. Steps -/

section

variable {ι : Type} [DecidableEq ι] {threads : Kind → Nat}

def setQueue (s : State ι threads) (k : Kind) (q : Queue ι (threads k)) : State ι threads :=
  Function.update s k q

def enqueueDbTask (s : State ι threads) (i : ι) : State ι threads × List Event :=
  (setQueue s .db (enqueueTask (s .db) i).1, (enqueueTask (s .db) i).2)

def enqueueRedisTask (s : State ι threads) (i : ι) : State ι threads × List Event :=
  (setQueue s .redis (enqueueTask (s .redis) i).1, (enqueueTask (s .redis) i).2)

def step (s : State ι threads) : Label ι threads → Option (State ι threads × List Event)
  | .enqueueDbTask i => some (enqueueDbTask s i)
  | .enqueueRedisTask i => some (enqueueRedisTask s i)
  | .pool k a =>
      match poolStep (s k) a with
      | none => none
      | some (q, es) => some (setQueue s k q, es)

end

/-! ## 4. Who is where -/

def CallPc.isAccepted : CallPc → Nat
  | .accepted => 1
  | _ => 0

/-- Between its `fetch_add` and its decision to accept, or its `fetch_sub`. -/
def CallPc.isDeciding : CallPc → Nat
  | .counted _ => 1
  | .refused => 1
  | _ => 0

def hasUnfinished : ThreadPool.WorkerPc Wrapped → Nat
  | .fetched _ => 1
  | .running .unfinished => 1
  | _ => 0

def hasFinished : ThreadPool.WorkerPc Wrapped → Nat
  | .running .finished => 1
  | _ => 0

section

variable {ι : Type} [Fintype ι] {threads : Nat}

/-- The tasks that were accepted and have not finished: on their way to the pool, queued there, or
    with a worker. -/
def Queue.unfinished (q : Queue ι threads) : Nat :=
  (∑ i, (q.calls i).isAccepted) + q.pool.tasks.length + ∑ w, hasUnfinished (q.pool.workers w)

/-- The callers between their `fetch_add` and what they make of it. -/
def Queue.deciding (q : Queue ι threads) : Nat := ∑ i, (q.calls i).isDeciding

/-- The tasks between their end and their `fetch_sub`. -/
def Queue.finishing (q : Queue ι threads) : Nat := ∑ w, hasFinished (q.pool.workers w)

end

end Admission
end EpollChat
