import EpollChat.Lib.Machine
import EpollChat.Text
import Mathlib.Logic.Function.Basic

/-!
# The chat log queue

`enqueueChatLog` appends to `m_chatLogActiveQueue` under the lock; `chatLogFlushLoop` swaps
that queue with `m_chatLogFlushQueue` under the lock and drains the latter without it, so a
caller that reads `m_chatLogFlushQueue.size()` may read it in the middle of a batch.

Callers are the threads of an arbitrary type. A step is one access to what the threads
share. Moving `front()` into the batch and `pop_front` are one step, since nobody but the
flush thread looks at the elements; leaving a scope that holds the lock goes with the last
access inside it, except at the end of `enqueueChatLog`.
-/

namespace EpollChat
namespace ChatLog

def kChatLogBatchSize : Nat := 128

def kChatLogQueueLimit : Nat := 200000

structure PendingChatLog where
  msgId : UInt64 := 0
  sender : Bytes
  target : Bytes
  content : Bytes
deriving DecidableEq, Repr

/-! ## 1. States -/

/-- Where a thread is in `enqueueChatLog`; from `checking` to `leaving` it has the lock. -/
inductive CallerPc where
  | outside
  | locking (log : PendingChatLog)
  | checking (log : PendingChatLog)
  | pushing (log : PendingChatLog)
  /-- Before `m_chatLogQueueDepth.fetch_add(1)`. -/
  | counting
  | leaving
deriving DecidableEq, Repr

/-- Where the flush thread is in `chatLogFlushLoop`. The draining code stands there twice;
    `last` tells the second copy. -/
inductive FlusherPc where
  /-- At `while (!m_chatLogStop.load())`. -/
  | loop
  | locking
  /-- In `wait_for`, about to evaluate the predicate. -/
  | waiting
  /-- In `wait_for`, without the lock. -/
  | blocked
  /-- After `wait_for`, with the lock. -/
  | checking
  /-- At `while (!m_chatLogFlushQueue.empty())`. -/
  | draining (last : Bool)
  /-- In the `for` loop, `n` logs short of a full batch. -/
  | filling (last : Bool) (n : Nat) (batch : List PendingChatLog)
  /-- Before `m_chatLogQueueDepth.fetch_sub(1)`. -/
  | counting (last : Bool) (n : Nat) (batch : List PendingChatLog)
  | finalLocking
  | finalChecking
  /-- At `if (m_chatLogFlushQueue.empty()) break`. -/
  | finalTesting
  | returned
deriving DecidableEq, Repr

inductive Owner (ι : Type) where
  | caller (t : ι)
  | flusher
deriving DecidableEq, Repr

structure State (ι : Type) where
  active : List PendingChatLog := []
  flush : List PendingChatLog := []
  queueDepth : UInt64 := 0
  stop : Bool := false
  mutex : Option (Owner ι) := none
  callers : ι → CallerPc := fun _ => .outside
  flusher : FlusherPc := .loop

/-! ## 2. Steps -/

/-- `flushed` is the argument of a `flushChatLogsBatch` call; `lockedCheck` is the flush
    thread's look at the two queues inside one of its locked blocks. -/
inductive Event where
  | accepted (log : PendingChatLog)
  | dropped (log : PendingChatLog)
  | flushed (batch : List PendingChatLog)
  | lockedCheck
deriving DecidableEq, Repr

/-- `wake` ends a wait of the flush thread, after the 20 ms or before them. -/
inductive Label (ι : Type) where
  | call (t : ι) (sender target content : Bytes)
  | caller (t : ι)
  | flusher
  | wake (timedOut : Bool)
  | stop
deriving DecidableEq, Repr

variable {ι : Type} [DecidableEq ι]

def setCaller (s : State ι) (t : ι) (pc : CallerPc) : State ι :=
  { s with callers := Function.update s.callers t pc }

/-- The next step of `enqueueChatLog` in thread `t`. -/
def callerStep (s : State ι) (t : ι) : Option (State ι × List Event) :=
  match s.callers t with
  | .outside => none
  | .locking log =>
      if s.mutex = none then some (setCaller { s with mutex := some (.caller t) } t (.checking log), [])
      else none
  | .checking log =>
      if kChatLogQueueLimit ≤ s.active.length + s.flush.length then
        some (setCaller s t .leaving, [.dropped log])
      else some (setCaller s t (.pushing log), [])
  | .pushing log =>
      some (setCaller { s with active := s.active ++ [log] } t .counting, [.accepted log])
  | .counting => some (setCaller { s with queueDepth := s.queueDepth + 1 } t .leaving, [])
  | .leaving => some (setCaller { s with mutex := none } t .outside, [])

/-- `m_chatLogActiveQueue.swap(m_chatLogFlushQueue)`. -/
def swapQueues (s : State ι) : State ι := { s with active := s.flush, flush := s.active }

/-- The next step of `chatLogFlushLoop`. -/
def flusherStep (s : State ι) : Option (State ι × List Event) :=
  match s.flusher with
  | .loop => some ({ s with flusher := if s.stop then .finalLocking else .locking }, [])
  | .locking =>
      if s.mutex = none then some ({ s with mutex := some .flusher, flusher := .waiting }, [])
      else none
  | .waiting =>
      if s.stop ∨ s.active ≠ [] then some ({ s with flusher := .checking }, [])
      else some ({ s with mutex := none, flusher := .blocked }, [])
  | .blocked => none
  | .checking =>
      if s.stop ∧ s.active = [] then
        some ({ s with mutex := none, flusher := .finalLocking }, [.lockedCheck])
      else if s.active ≠ [] then
        some ({ swapQueues s with mutex := none, flusher := .draining false }, [.lockedCheck])
      else some ({ s with mutex := none, flusher := .draining false }, [.lockedCheck])
  | .draining last =>
      if s.flush = [] then some ({ s with flusher := if last then .finalLocking else .loop }, [])
      else some ({ s with flusher := .filling last (min kChatLogBatchSize s.flush.length) [] }, [])
  | .filling last 0 batch => some ({ s with flusher := .draining last }, [.flushed batch])
  | .filling last (n + 1) batch =>
      match s.flush with
      | [] => none
      | log :: rest =>
          some ({ s with flush := rest, flusher := .counting last n (batch ++ [log]) }, [])
  | .counting last n batch =>
      some ({ s with queueDepth := s.queueDepth - 1, flusher := .filling last n batch }, [])
  | .finalLocking =>
      if s.mutex = none then some ({ s with mutex := some .flusher, flusher := .finalChecking }, [])
      else none
  | .finalChecking =>
      if s.flush = [] ∧ s.active ≠ [] then
        some ({ swapQueues s with mutex := none, flusher := .finalTesting }, [.lockedCheck])
      else some ({ s with mutex := none, flusher := .finalTesting }, [.lockedCheck])
  | .finalTesting =>
      some ({ s with flusher := if s.flush = [] then .returned else .draining true }, [])
  | .returned => none

def step (s : State ι) : Label ι → Option (State ι × List Event)
  | .call t sender target content =>
      if s.callers t = .outside then
        some (setCaller s t (.locking { sender := sender, target := target, content := content }), [])
      else none
  | .caller t => callerStep s t
  | .flusher => flusherStep s
  | .wake timedOut =>
      -- `wait_for` has the lock again when it returns, and asks the predicate unless its time is up
      if s.flusher = .blocked ∧ s.mutex = none then
        some ({ s with
          mutex := some .flusher, flusher := if timedOut then .checking else .waiting }, [])
      else none
  | .stop => some ({ s with stop := true }, [])

end ChatLog
end EpollChat
