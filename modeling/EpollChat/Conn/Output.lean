import EpollChat.Conn.SendQueue
import EpollChat.Lib.Machine
import Mathlib.Logic.Function.Basic

/-!
# The output side of one connection

Any number of threads call `sendPacket`, the connection's reactor thread calls
`handleWrite`, and the accept thread may still be registering the descriptor. A step is
a critical section, a `::send` or an `epoll_ctl`, whichever thread takes it: between two
of them any other thread may move. The label says who moves and what the kernel
answered.

`epoll_ctl` on a descriptor that is not registered fails and changes nothing, which is
what `Option.map` does to `interest`.
-/

namespace EpollChat
namespace Output

/-! ## 1. States -/

/-- Where the reactor thread is in `handleWrite`. -/
inductive WriterPc where
  | idle
  | loop (flushed : Nat)
  | sending (flushed : Nat) (ptr : Nat × Nat) (canSend : Nat)
  | sent (flushed : Nat) (n : Nat)
  | finishing
  | disabling
  | failing
deriving DecidableEq, Repr

/-- Where a thread is in `sendPacket`: before its critical section or back from the call,
    about to enable `EPOLLOUT`, or about to call `handleDisconnect`. -/
inductive SenderPc where
  | idle
  | enabling
  | dropping
deriving DecidableEq, Repr

/-- `interest` is the descriptor's entry in the reactor's epoll set: `some out` if there is
    one, with or without `EPOLLOUT`. -/
structure State where
  queue : SendQueue
  writer : WriterPc := .idle
  senders : Nat → SenderPc := fun _ => .idle
  reactorEpollFd : Bool
  interest : Option Bool
  disconnected : Bool := false

/-- What `::send` answered. -/
inductive SendResult where
  | took (n : Nat)
  | wouldBlock
  | failed
deriving DecidableEq, Repr

inductive Label where
  | sendPacket (tid : Nat) (type : UInt16) (data : Bytes)
  | enableWrite (tid : Nat)
  | dropConnection (tid : Nat)
  | startWrite
  | takeChunk
  | kernelSend (r : SendResult)
  | consumeSent
  | finishWrite
  | disableWrite
  | failConnection
  | assignEpollFd
  | epollAdd
  | disconnect
deriving DecidableEq, Repr

/-- `accepted` and `dropped` are the two outcomes of `sendPacket`'s critical section,
    `wire` is what the kernel took. -/
inductive Event where
  | accepted (tid : Nat) (type : UInt16) (data : Bytes)
  | dropped (tid : Nat) (type : UInt16) (data : Bytes)
  | wire (bytes : Bytes)
deriving DecidableEq, Repr

/-! ## 2. Steps -/

def setSender (s : State) (tid : Nat) (pc : SenderPc) : State :=
  { s with senders := Function.update s.senders tid pc }

/-- `handleDisconnect`: the descriptor leaves the epoll set. -/
def disconnected (s : State) : State := { s with interest := none, disconnected := true }

/-- `epoll_ctl(…, EPOLL_CTL_MOD, …)`, unless `reactorEpollFd` is still -1. -/
def modInterest (s : State) (out : Bool) : State :=
  if s.reactorEpollFd then { s with interest := s.interest.map fun _ => out } else s

def sendPacket (s : State) (tid : Nat) (type : UInt16) (data : Bytes) :
    Option (State × List Event) :=
  match s.senders tid with
  | .idle =>
      match s.queue.enqueue type data with
      | none => none
      | some (.dropped, q) =>
          some (setSender { s with queue := q } tid .dropping, [.dropped tid type data])
      | some (.queued needEnableWrite, q) =>
          some (setSender { s with queue := q } tid (if needEnableWrite then .enabling else .idle),
            [.accepted tid type data])
  | _ => none

def takeChunk (s : State) (flushed : Nat) : State :=
  if flushed < WRITE_FLUSH_BUDGET_BYTES then
    match s.queue.takeChunk flushed with
    | (none, q) => { s with queue := q, writer := .finishing }
    | (some (ptr, canSend), q) => { s with queue := q, writer := .sending flushed ptr canSend }
  else { s with writer := .finishing }

/-- `::send` takes some of what it is offered, would block, or fails. -/
def kernelSend (s : State) (flushed : Nat) (ptr : Nat × Nat) (canSend : Nat) :
    SendResult → Option (State × List Event)
  | .took n =>
      if 0 < n ∧ n ≤ canSend then
        some ({ s with writer := .sent flushed n }, [.wire (s.queue.readAt ptr n)])
      else none
  | .wouldBlock => some ({ s with writer := .idle }, [])
  | .failed => some ({ s with writer := .failing }, [])

def finishWrite (s : State) : State :=
  { s with
    queue := s.queue.finishWrite.2
    writer := if s.queue.finishWrite.1 then .disabling else .idle }

def step (s : State) : Label → Option (State × List Event)
  | .sendPacket tid type data => sendPacket s tid type data
  | .enableWrite tid =>
      match s.senders tid with
      | .enabling => some (setSender (modInterest s true) tid .idle, [])
      | _ => none
  | .dropConnection tid =>
      match s.senders tid with
      | .dropping => some (setSender (disconnected s) tid .idle, [])
      | _ => none
  | .startWrite =>
      match s.writer with
      | .idle => some ({ s with writer := .loop 0 }, [])
      | _ => none
  | .takeChunk =>
      match s.writer with
      | .loop flushed => some (takeChunk s flushed, [])
      | _ => none
  | .kernelSend r =>
      match s.writer with
      | .sending flushed ptr canSend => kernelSend s flushed ptr canSend r
      | _ => none
  | .consumeSent =>
      match s.writer with
      | .sent flushed n =>
          some ({ s with queue := s.queue.consumeSent n, writer := .loop (flushed + n) }, [])
      | _ => none
  | .finishWrite =>
      match s.writer with
      | .finishing => some (finishWrite s, [])
      | _ => none
  | .disableWrite =>
      match s.writer with
      | .disabling => some ({ modInterest s false with writer := .idle }, [])
      | _ => none
  | .failConnection =>
      match s.writer with
      | .failing => some ({ disconnected s with writer := .idle }, [])
      | _ => none
  | .assignEpollFd => some ({ s with reactorEpollFd := true }, [])
  | .epollAdd =>
      if s.reactorEpollFd = true ∧ s.interest = none ∧ s.disconnected = false then
        some ({ s with interest := some false }, [])
      else none
  | .disconnect => some (disconnected s, [])

/-- A connection `handleAccept` has just constructed. -/
def accepted (q : SendQueue) : State := { queue := q, reactorEpollFd := false, interest := none }

/-- One that `addFd` has registered with its reactor. -/
def registered (q : SendQueue) : State := { queue := q, reactorEpollFd := true, interest := some false }

/-! ## 3. Reading a trace -/

/-- The bytes the kernel took. -/
def wireBytes (τ : List Event) : Bytes :=
  τ.flatMap fun
    | .wire bytes => bytes
    | _ => []

/-- The frames of the accepted calls, in the order of their critical sections. -/
def acceptedFrames (τ : List Event) : List Bytes :=
  τ.filterMap fun
    | .accepted _ type data => some (frame type data)
    | _ => none

/-- What `::send` has taken and `consume` not yet dropped. -/
def WriterPc.inFlight : WriterPc → Nat
  | .sent _ n => n
  | _ => 0

end Output
end EpollChat
