import EpollChat.Lib.Machine
import Mathlib.Logic.Function.Basic

/-!
# The thread pool

`tasks` and `stop` are only touched under `queue_mutex`, so each critical section is one
step: a worker's from the end of its `wait` to `pop`, and those of `enqueue`, `try_enqueue`
and the destructor. A worker then runs what it has taken without the lock.

A task is a value of an arbitrary type. What it does is not looked at, except that while it
runs it may call `enqueue` and `try_enqueue` of the pool itself. An `enqueue` of any other
thread is over when the destructor sets `stop`, as the lifetime of the pool demands;
`try_enqueue` looks at `stop` and may come at any time.
-/

namespace EpollChat
namespace ThreadPool

/-! ## 1. States -/

/-- Where a worker is in its loop. -/
inductive WorkerPc (Task : Type) where
  /-- Before or in `wait`. -/
  | waiting
  /-- `task` has been moved out of the queue, and the lock released. -/
  | fetched (task : Task)
  /-- In `task()`. -/
  | running (task : Task)
  /-- After `break`. -/
  | left
deriving DecidableEq, Repr

structure State (Task : Type) (threads : Nat) where
  tasks : List Task := []
  stop : Bool := false
  max_queue_size : Nat := 0
  workers : Fin threads → WorkerPc Task := fun _ => .waiting

/-- `ThreadPool(threads, maxQueueSize)`. -/
def create (Task : Type) (threads maxQueueSize : Nat) : State Task threads :=
  { max_queue_size := maxQueueSize }

variable {Task : Type} {threads : Nat}

/-! ## 2. The critical sections -/

def enqueue (s : State Task threads) (task : Task) : State Task threads :=
  { s with tasks := s.tasks ++ [task] }

def tryEnqueue (s : State Task threads) (task : Task) : Bool × State Task threads :=
  if s.stop then (false, s)
  else if 0 < s.max_queue_size ∧ s.max_queue_size ≤ s.tasks.length then (false, s)
  else (true, { s with tasks := s.tasks ++ [task] })

/-! ## 3. Steps -/

inductive Event (Task : Type) where
  | accepted (task : Task)
  | refused (task : Task)
  | fetched (task : Task)
  | started (task : Task)
  | finished (task : Task)
deriving DecidableEq, Repr

/-- `caller` is the worker whose task makes the call, or `none` for any other thread. -/
inductive Label (Task : Type) (threads : Nat) where
  | enqueue (caller : Option (Fin threads)) (task : Task)
  | tryEnqueue (caller : Option (Fin threads)) (task : Task)
  | worker (w : Fin threads)
  | destroy
deriving DecidableEq, Repr

/-- The calls come from a worker's task while it runs, and from outside if `outside`. -/
def mayCall (s : State Task threads) (outside : Bool) : Option (Fin threads) → Bool
  | none => outside
  | some w =>
      match s.workers w with
      | .running _ => true
      | _ => false

def setWorker (s : State Task threads) (w : Fin threads) (pc : WorkerPc Task) : State Task threads :=
  { s with workers := Function.update s.workers w pc }

/-- The next step of a worker. It stays in `wait` while there is no task and no `stop`. -/
def workerStep (s : State Task threads) (w : Fin threads) :
    Option (State Task threads × List (Event Task)) :=
  match s.workers w with
  | .waiting =>
      match s.tasks with
      | [] => if s.stop then some (setWorker s w .left, []) else none
      | task :: rest => some (setWorker { s with tasks := rest } w (.fetched task), [.fetched task])
  | .fetched task => some (setWorker s w (.running task), [.started task])
  | .running task => some (setWorker s w .waiting, [.finished task])
  | .left => none

def step (s : State Task threads) : Label Task threads →
    Option (State Task threads × List (Event Task))
  | .enqueue caller task =>
      if mayCall s (!s.stop) caller then some (enqueue s task, [.accepted task]) else none
  | .tryEnqueue caller task =>
      if mayCall s true caller then
        match tryEnqueue s task with
        | (true, s') => some (s', [.accepted task])
        | (false, s') => some (s', [.refused task])
      else none
  | .worker w => workerStep s w
  | .destroy => if s.stop then none else some ({ s with stop := true }, [])

end ThreadPool
end EpollChat
