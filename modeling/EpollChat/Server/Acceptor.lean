import EpollChat.Lib.Machine
import Mathlib.Algebra.Group.Nat.Defs

/-!
# The listening socket

`start` registers `m_listenFd` with `EPOLLIN | EPOLLET`, so `run` hears of a connection when
it arrives and not as long as it waits, and `handleAccept` has to take all that wait before
it returns. It goes on until `accept4` says `EAGAIN`; any other error ends the round too
("其他错误：本轮结束，等待下次 EPOLLIN").

Clients are numbered in the order their handshakes complete, `backlog` is the kernel's
queue of them, and `event` says that the listening socket is on epoll's ready list. What
`accept4` answers is up to the kernel: the first client of the queue, `EAGAIN` for an empty
one, an error that leaves the queue as it is (no descriptor left, an interrupt), or one
that is about the first client and takes it away. The accept thread alone reads and writes
`m_nextSubReactor`, so placing a client is one step.
-/

namespace EpollChat
namespace Acceptor

/-- Where the accept thread is: in `epoll_wait`, at `accept4`, or past it with a client. -/
inductive AcceptPc where
  | idle
  | accepting
  | placing (client : Nat)
deriving DecidableEq, Repr

structure State where
  backlog : List Nat := []
  arrivals : Nat := 0
  event : Bool := false
  pc : AcceptPc := .idle
  m_nextSubReactor : Nat := 0
  g_acceptCount : Nat := 0
deriving DecidableEq, Repr

inductive AcceptResult where
  | client
  | wouldBlock
  | failed
  | aborted
deriving DecidableEq, Repr

inductive Label where
  | connect
  | epollWait
  | accept4 (r : AcceptResult)
  | place
deriving DecidableEq, Repr

/-- `aborted` clients are the kernel's, `closed` ones have no sub-reactor to go to. -/
inductive Event where
  | placed (client index : Nat)
  | aborted (client : Nat)
  | closed (client : Nat)
deriving DecidableEq, Repr

/-- The server has just begun to listen. -/
def listening : State := {}

def accept4 (s : State) : AcceptResult → Option (State × List Event)
  | .client =>
      match s.backlog with
      | c :: rest => some ({ s with backlog := rest, pc := .placing c }, [])
      | [] => none
  | .wouldBlock => if s.backlog = [] then some ({ s with pc := .idle }, []) else none
  | .failed => some ({ s with pc := .idle }, [])
  | .aborted =>
      match s.backlog with
      | c :: rest => some ({ s with backlog := rest, pc := .idle }, [.aborted c])
      | [] => none

/-- `size` is `m_subReactors.size()`. -/
def step (size : Nat) (s : State) : Label → Option (State × List Event)
  | .connect =>
      some ({ s with backlog := s.backlog ++ [s.arrivals], arrivals := s.arrivals + 1, event := true }, [])
  | .epollWait =>
      match s.pc with
      | .idle =>
          if s.event = true then
            some ({ s with event := false, pc := if s.backlog = [] then .idle else .accepting }, [])
          else none
      | _ => none
  | .accept4 r =>
      match s.pc with
      | .accepting => accept4 s r
      | _ => none
  | .place =>
      match s.pc with
      | .placing c =>
          if size = 0 then some ({ s with pc := .accepting }, [.closed c])
          else
            some ({ s with
              pc := .accepting
              m_nextSubReactor := (s.m_nextSubReactor + 1) % 2 ^ 64
              g_acceptCount := s.g_acceptCount + 1 }, [.placed c (s.m_nextSubReactor % size)])
      | _ => none

/-! ## Reading a trace -/

/-- The clients that have been given to a sub-reactor, and to which. -/
def placed (τ : List Event) : List (Nat × Nat) :=
  τ.filterMap fun
    | .placed c i => some (c, i)
    | _ => none

/-- The clients that were lost on the way. -/
def lost (τ : List Event) : List Nat :=
  τ.filterMap fun
    | .placed _ _ => none
    | .aborted c => some c
    | .closed c => some c

/-- The client the accept thread is holding. -/
def inHand (s : State) : List Nat :=
  match s.pc with
  | .placing c => [c]
  | _ => []

/-- How many clients sub-reactor `i` has been given. -/
def load (τ : List Event) (i : Nat) : Nat := ((placed τ).map Prod.snd).count i

end Acceptor
end EpollChat
