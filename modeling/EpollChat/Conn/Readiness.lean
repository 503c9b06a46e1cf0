import EpollChat.Conn.Input
import EpollChat.Lib.Machine

/-!
# Reading by edges: a connection, epoll and its reactor

`addFd` asks for `EPOLLIN | EPOLLET`, so epoll speaks up when something *happens* to the
socket and not as long as something is *in* it. `SubReactor::run` calls `handleRead` when
it is told of `EPOLLIN`, and whatever that call leaves in the socket stays there until the
next thing happens.

The bytes of the client arrive at any time: before the descriptor is registered, between
two `recv`s, between the last `recv` and the packet loop. So a step is one arrival, one
system call, or the packet loop, which runs under `clientMutex` and takes `fuel` rounds as
in `Input`. `event` says that the descriptor is on epoll's ready list. Bytes, the client's
close, room in the send buffer and an `EPOLL_CTL_MOD` put it there, `epoll_wait` takes it
off and looks at the socket again before it reports `EPOLLIN`.
-/

namespace EpollChat
namespace Readiness

open Input

/-! ## 1. States -/

/-- Where the reactor thread is: not in `handleRead` of this connection, in the `recv` loop,
    past it, or about to call `handleDisconnect`. -/
inductive ReaderPc where
  | idle
  | receiving
  | parsing
  | failing
deriving DecidableEq, Repr

/-- `queue` and `closed` are the socket: bytes not received yet, and whether the client's
    close is behind them. -/
structure State where
  queue : Bytes := []
  closed : Bool := false
  registered : Bool := false
  event : Bool := false
  buffer : PoolRecvBuffer := .create 4096
  reader : ReaderPc := .idle
  disconnected : Bool := false

inductive Label where
  | arrive (bytes : Bytes)
  | close
  | epollAdd
  | epollMod
  | writable
  | epollWait
  | recv (r : RecvResult)
  | parse (fuel : Nat)
  | disconnectSelf
  | disconnect
deriving DecidableEq, Repr

inductive Event where
  | arrived (bytes : Bytes)
  | handedOver (packets : List Extracted)
deriving DecidableEq, Repr

/-- A connection `handleAccept` has just constructed. -/
def accepted : State := {}

/-! ## 2. Steps -/

/-- What `EPOLLIN` stands for. -/
def readable (s : State) : Bool := !s.queue.isEmpty || s.closed

/-- Something happens to the socket. -/
def wake (s : State) : State := { s with event := s.event || s.registered }

/-- `handleDisconnect`: the descriptor leaves the epoll set. -/
def disconnected (s : State) : State :=
  { s with registered := false, event := false, disconnected := true }

/-- `recv` answers with bytes as long as there are any, and after `handleDisconnect` with an
    error. -/
def recv (s : State) : RecvResult → Option State
  | .data bytes =>
      if s.disconnected = false ∧ bytes ≠ [] ∧ bytes.length ≤ READ_BUFFER_SIZE ∧ bytes <+: s.queue then
        match s.buffer.append bytes with
        | none => none
        | some b => some { s with queue := s.queue.drop bytes.length, buffer := b }
      else none
  | .closed =>
      if s.disconnected = false ∧ s.queue = [] ∧ s.closed = true then
        some { s with reader := .failing }
      else none
  | .wouldBlock =>
      if s.disconnected = false ∧ s.queue = [] ∧ s.closed = false then
        some { s with reader := .parsing }
      else none
  | .failed => some { s with reader := .failing }

/-- The packet loop and the hand-over of what it found. -/
def parse (s : State) (fuel : Nat) : Option (State × List Event) :=
  match parseLoop fuel s.buffer [] with
  | none => none
  | some (b, _, true) => some ({ s with buffer := b, reader := .failing }, [])
  | some (b, packets, false) => some ({ s with buffer := b, reader := .idle }, [.handedOver packets])

def step (s : State) : Label → Option (State × List Event)
  | .arrive bytes =>
      if s.closed = false ∧ bytes ≠ [] then
        some (wake { s with queue := s.queue ++ bytes }, [.arrived bytes])
      else none
  | .close => if s.closed = false then some (wake { s with closed := true }, []) else none
  | .epollAdd =>
      if s.registered = false ∧ s.disconnected = false then
        some ({ s with registered := true, event := readable s }, [])
      else none
  -- Fails and changes nothing where the descriptor is not registered.
  | .epollMod => some ({ s with event := s.event || (s.registered && readable s) }, [])
  | .writable => some (wake s, [])
  | .epollWait =>
      match s.reader with
      | .idle =>
          if s.event = true then
            some ({ s with event := false, reader := if readable s then .receiving else .idle }, [])
          else none
      | _ => none
  | .recv r =>
      match s.reader with
      | .receiving => (recv s r).map fun s' => (s', [])
      | _ => none
  | .parse fuel =>
      match s.reader with
      | .parsing => parse s fuel
      | _ => none
  | .disconnectSelf =>
      match s.reader with
      | .failing => some ({ disconnected s with reader := .idle }, [])
      | _ => none
  | .disconnect => some (disconnected s, [])

/-- What the reactor thread does with the connection while `recv` does not fail. -/
def Reading : Label → Prop
  | .recv r => r ≠ .failed
  | .epollWait | .parse _ | .disconnectSelf => True
  | _ => False

instance : DecidablePred Reading
  | .recv r => inferInstanceAs (Decidable (r ≠ .failed))
  | .epollWait | .parse _ | .disconnectSelf => isTrue trivial
  | .arrive _ | .close | .epollAdd | .epollMod | .writable | .disconnect => isFalse id

/-- Nobody ends the connection: not the client, not an error, not another thread. -/
def Peaceful : Label → Prop
  | .close | .disconnect => False
  | .recv r => r ≠ .failed
  | _ => True

instance : DecidablePred Peaceful
  | .recv r => inferInstanceAs (Decidable (r ≠ .failed))
  | .close | .disconnect => isFalse id
  | .arrive _ | .epollAdd | .epollMod | .writable | .epollWait | .parse _ | .disconnectSelf =>
      isTrue trivial

/-! ## 3. Reading a trace -/

/-- The bytes the client has sent. -/
def arrived (τ : List Event) : Bytes :=
  τ.flatMap fun
    | .arrived bytes => bytes
    | .handedOver _ => []

/-- The packets the hand-over loop has got to see. -/
def handedOver (τ : List Event) : List Extracted :=
  τ.flatMap fun
    | .arrived _ => []
    | .handedOver packets => packets

end Readiness
end EpollChat
