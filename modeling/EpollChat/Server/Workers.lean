import EpollChat.Lib.Condition
import EpollChat.Server.ThreadPool

/-!
# How the workers of the thread pool sleep and wake

`Server.ThreadPool` has the critical sections of the pool and leaves out how a worker comes
to its own. Here is the rest: `condition.wait` with its predicate, the `notify_one` that `enqueue` and
`try_enqueue` call after they have released the lock, and the destructor's `notify_all`.
-/

namespace EpollChat
namespace ThreadPool

open Lib

variable {Task : Type} {threads : Nat}

/-- The worker is at `condition.wait`. -/
def atWait (s : State Task threads) (w : Fin threads) : Bool :=
  match s.workers w with
  | .waiting => true
  | _ => false

/-- The calls of `notify_one` and `notify_all`. -/
def notifies (s : State Task threads) : Label Task threads → Nat
  | .enqueue _ _ => 1
  | .tryEnqueue _ task => if (tryEnqueue s task).1 then 1 else 0
  | .worker _ => 0
  | .destroy => threads

def resumes (s : State Task threads) : Label Task threads → Option (Fin threads)
  | .worker w => if atWait s w then some w else none
  | _ => none

/-- The predicate is `stop || !tasks.empty()`. -/
def condition (Task : Type) (threads : Nat) :
    Condition.System (State Task threads) (Label Task threads) (Event Task) (Fin threads) where
  step := step
  resumes := resumes
  atWait := atWait
  ready s := s.tasks.length
  flooded s := s.stop
  notifies := notifies

/-- The pool as the constructor leaves it. -/
def start (Task : Type) (threads maxQueueSize : Nat) :
    Condition.State (State Task threads) (Fin threads) :=
  { base := create Task threads maxQueueSize }

/-- The steps of the workers themselves. -/
def Label.isWorker : Label Task threads → Bool
  | .worker _ => true
  | _ => false

end ThreadPool
end EpollChat
