import EpollChat.Conn.Output
import EpollChat.Server.Registry
import Mathlib.Data.Fintype.Basic
import Mathlib.Data.Fintype.Sum
import Mathlib.Tactic.DeriveFintype

/-!
# The threads of the server, step by step

The accept thread, the sub-reactors and the workers share the registry, the kernel's
descriptor table and the epoll sets. A step is one critical section, one system call, or one
access to a shared field. What a thread has still to do is a stack of such steps (`Act`):
one that calls a function is replaced by the steps of the function.

Three things are not in the source. A socket is named by the context it was accepted for,
so that `sockets fd` says whose connection a number denotes at the moment. A call of
`handleDisconnect` carries the context its caller meant (`onBehalf`): the source passes the
number only. And the events record what a step hit.

Contexts are never destroyed here: whoever holds one may use it at any time.
-/

namespace EpollChat
namespace Server

open Output (SendResult WriterPc)

/-! ## 1. Threads and what they have still to do -/

/-- `EpollChatServer::run`, `R` sub-reactors and `W` worker threads. -/
inductive Thread (R W : Nat) where
  | acceptor
  | reactor (e : Fin R)
  | worker (i : Fin W)
deriving DecidableEq, Fintype

/-- An entry of `epoll_wait`'s result: `EPOLLIN`, `EPOLLOUT`, and `EPOLLERR | EPOLLHUP`. -/
structure Ready where
  fd : Nat
  readable : Bool
  writable : Bool
  failed : Bool
deriving DecidableEq, Repr

/-- A call of `handleDisconnect(fd)` that has found the context `found`. -/
structure Disconnect where
  fd : Nat
  onBehalf : Nat
  found : Nat
deriving DecidableEq, Repr

inductive DisconnectStage where
  | removeUser
  | removeClient
  | epollDel
  | shutdown
  | close
deriving DecidableEq, Repr

inductive AcceptStage where
  | addClient
  | assignReactor
  | epollAdd
deriving DecidableEq, Repr

/-- What the login task captures. -/
structure Login where
  ctx : Nat
  expectedFd : Nat
  username : Bytes
deriving DecidableEq, Repr

inductive LoginStage where
  | guard
  | check
  | failGuard
  | lastGuard
  | setOnline
  | friends
  | dispatch
deriving DecidableEq, Repr

inductive Act where
  /-- `SubReactor::run` looks the descriptor up. -/
  | event (r : Ready)
  | handleRead (c : Nat)
  | write (c : Nat) (pc : WriterPc)
  | sendPacket (c : Nat) (type : UInt16) (data : Bytes)
  | enableWrite (c : Nat)
  /-- `handleDisconnect` is about to look the descriptor up. -/
  | handleDisconnect (fd onBehalf : Nat)
  | disconnect (stage : DisconnectStage) (d : Disconnect)
  | accept (stage : AcceptStage) (c e : Nat)
  | login (stage : LoginStage) (l : Login)
  | setOnlineUser (c : Nat) (accountID : Bytes)
  | setAccount (c : Nat) (accountID : Bytes)
deriving DecidableEq, Repr

/-! ## 2. States -/

/-- `interest e fd` is the entry of `fd` in the epoll set of sub-reactor `e`: `some out` if
    there is one, with or without `EPOLLOUT`. `logins` is the queue of login tasks. -/
structure World where
  registry : Registry := {}
  sockets : Nat → Option Nat := fun _ => none
  interest : Nat → Nat → Option Bool := fun _ _ => none
  logins : List Login := []

structure State (R W : Nat) where
  world : World := {}
  threads : Thread R W → List Act := fun _ => []

/-- A packet that `handleRead` answers itself. -/
inductive Reply where
  | heartbeat
  | serverBusy
deriving DecidableEq, Repr

/-- How `handleRead` ends: end of file, an error or a bad length; or with complete packets,
    of which the business threads get all but these. -/
inductive ReadResult where
  | disconnect
  | packets (replies : List Reply)
deriving DecidableEq, Repr

/-- What a step is told by the kernel, the database or Redis. -/
inductive Answer where
  | none
  | read (r : ReadResult)
  | sent (r : SendResult)
  | checked (ok : Bool)
  | friends (json : Bytes)
  | messages (msgs : List Bytes)
deriving DecidableEq, Repr

inductive Event where
  /-- `::send(fd, …)` in `handleWrite` of `c`, the socket `fd` denoted, and the bytes. -/
  | passed (c fd : Nat) (socket : Option Nat) (bytes : Bytes)
  /-- `removeClientCtx`, and the entry it erased. -/
  | unregistered (d : Disconnect) (entry : Option Nat)
  | shutdown (d : Disconnect) (socket : Option Nat)
  | closed (d : Disconnect) (socket : Option Nat)
  /-- The login task's `setOnlineUser`, and the context registered under `expectedFd`. -/
  | online (l : Login) (entry : Option Nat)
deriving DecidableEq, Repr

inductive Label (R W : Nat) where
  | epollWait (e : Fin R) (ready : List Ready)
  | accept (fd : Nat) (e : Fin R)
  /-- A task calls `sendPacket` with a context it holds. -/
  | send (i : Fin W) (c : Nat) (type : UInt16) (data : Bytes)
  | bindPacket (i : Fin W) (c : Nat) (senderID : Bytes)
  | loginPacket (i : Fin W) (c : Nat) (username : Bytes) (queued : Bool)
  | startLogin (i : Fin W)
  /-- The thread takes its next step. -/
  | move (t : Thread R W) (answer : Answer)
deriving DecidableEq

/-! ## 3. Contexts and descriptors -/

namespace World

def fdOf (w : World) (c : Nat) : Option Nat := (w.registry.contexts c).map (·.fd)

def modifyCtx (w : World) (c : Nat) (f : ClientContext → ClientContext) : World :=
  { w with registry := w.registry.modifyCtx c f }

def setQueue (w : World) (c : Nat) (q : SendQueue) : World :=
  w.modifyCtx c fun ctx => { ctx with queue := q }

def setInterest (w : World) (e fd : Nat) (entry : Option Bool) : World :=
  { w with interest := Function.update w.interest e (Function.update (w.interest e) fd entry) }

/-- `epoll_ctl(ctx->reactorEpollFd, EPOLL_CTL_MOD, fd, …)`, unless that is still -1. -/
def modInterest (w : World) (ctx : ClientContext) (out : Bool) : World :=
  match ctx.reactorEpollFd with
  | none => w
  | some e => w.setInterest e ctx.fd ((w.interest e ctx.fd).map fun _ => out)

/-- `close(fd)`: the number denotes nothing, and it leaves every epoll set. -/
def closeFd (w : World) (fd : Nat) : World :=
  { w with
    sockets := Function.update w.sockets fd none
    interest := fun e => Function.update (w.interest e) fd none }

end World

/-! ## 4. The functions, one step at a time -/

/-- A step's effect: the world, what the thread does next, and the events. -/
abbrev Outcome := World × List Act × List Event

/-- The three `if`s of `SubReactor::run`. -/
def onEvent (c : Nat) (r : Ready) : List Act :=
  (if r.readable then [.handleRead c] else []) ++
    ((if r.writable then [.write c (.loop 0)] else []) ++
      (if r.failed then [.handleDisconnect r.fd c] else []))

def MSG_TYPE_ACK : UInt16 := 13

def serverBusyBody : Bytes := ascii "\x7b\"result\":\"fail\",\"message\":\"server_busy\"\x7d"

def replyAct (c : Nat) : Reply → Act
  | .heartbeat => .sendPacket c 2 []
  | .serverBusy => .sendPacket c MSG_TYPE_ACK serverBusyBody

/-- `recv` on a number that denotes nothing fails. -/
def handleRead (w : World) (c : Nat) (ctx : ClientContext) : Answer → Option Outcome
  | .read .disconnect => some (w, [.handleDisconnect ctx.fd c], [])
  | .read (.packets replies) =>
      if (w.sockets ctx.fd).isSome then some (w, replies.map (replyAct c), []) else none
  | _ => none

/-- `::send` on a number that denotes nothing fails. -/
def kernelSend (w : World) (c : Nat) (ctx : ClientContext) (flushed : Nat) (ptr : Nat × Nat)
    (canSend : Nat) : SendResult → Option Outcome
  | .took n =>
      if 0 < n ∧ n ≤ canSend ∧ (w.sockets ctx.fd).isSome then
        some (w, [.write c (.sent flushed n)],
          [.passed c ctx.fd (w.sockets ctx.fd) (ctx.queue.readAt ptr canSend)])
      else none
  | .wouldBlock =>
      if (w.sockets ctx.fd).isSome then
        some (w, [], [.passed c ctx.fd (w.sockets ctx.fd) (ctx.queue.readAt ptr canSend)])
      else none
  | .failed =>
      some (w, [.write c .failing],
        [.passed c ctx.fd (w.sockets ctx.fd) (ctx.queue.readAt ptr canSend)])

def handleWrite (w : World) (c : Nat) (ctx : ClientContext) : WriterPc → Answer → Option Outcome
  | .loop flushed, _ =>
      if flushed < WRITE_FLUSH_BUDGET_BYTES then
        match ctx.queue.takeChunk flushed with
        | (none, q) => some (w.setQueue c q, [.write c .finishing], [])
        | (some (ptr, canSend), q) =>
            some (w.setQueue c q, [.write c (.sending flushed ptr canSend)], [])
      else some (w, [.write c .finishing], [])
  | .sending flushed ptr canSend, .sent r => kernelSend w c ctx flushed ptr canSend r
  | .sent flushed n, _ =>
      some (w.setQueue c (ctx.queue.consumeSent n), [.write c (.loop (flushed + n))], [])
  | .finishing, _ =>
      some (w.setQueue c ctx.queue.finishWrite.2,
        if ctx.queue.finishWrite.1 then [.write c .disabling] else [], [])
  | .disabling, _ => some (w.modInterest ctx false, [], [])
  | .failing, _ => some (w, [.handleDisconnect ctx.fd c], [])
  | _, _ => none

def sendPacket (w : World) (c : Nat) (ctx : ClientContext) (type : UInt16) (data : Bytes) :
    Option Outcome :=
  match ctx.queue.enqueue type data with
  | none => none
  | some (.dropped, q) => some (w.setQueue c q, [.handleDisconnect ctx.fd c], [])
  | some (.queued needEnableWrite, q) =>
      some (w.setQueue c q, if needEnableWrite then [.enableWrite c] else [], [])

/-- `handleDisconnect` after its lookup; `ctx` is the context it found. -/
def handleDisconnect (w : World) (d : Disconnect) (ctx : ClientContext) : DisconnectStage → Outcome
  | .removeUser =>
      ({ w with registry :=
          if ctx.accountID = [] then w.registry else w.registry.removeOnlineUser ctx.accountID },
        [.disconnect .removeClient d], [])
  | .removeClient =>
      ({ w with registry := w.registry.removeClientCtx d.fd }, [.disconnect .epollDel d],
        [.unregistered d (w.registry.clients d.fd)])
  | .epollDel =>
      (match ctx.reactorEpollFd with
        | none => w
        | some e => w.setInterest e d.fd none,
        [.disconnect .shutdown d], [])
  | .shutdown => (w, [.disconnect .close d], [.shutdown d (w.sockets d.fd)])
  | .close => (w.closeFd d.fd, [], [.closed d (w.sockets d.fd)])

/-- `handleAccept` after `make_shared`: `addClientCtx`, and the two statements of `addFd`. -/
def handleAccept (w : World) (c e : Nat) (ctx : ClientContext) : AcceptStage → Outcome
  | .addClient =>
      ({ w with registry := w.registry.addClientCtx c ctx.fd }, [.accept .assignReactor c e], [])
  | .assignReactor =>
      (w.modifyCtx c fun ctx => { ctx with reactorEpollFd := some e }, [.accept .epollAdd c e], [])
  | .epollAdd =>
      (if (w.sockets ctx.fd).isSome ∧ w.interest e ctx.fd = none then
          w.setInterest e ctx.fd (some false)
        else w, [], [])

def loginSuccessBody : Bytes := ascii "\x7b\"result\":\"success\"\x7d"

def loginFailBody : Bytes := ascii "\x7b\"result\":\"fail\"\x7d"

def systemBusyBody : Bytes := ascii "\x7b\"result\":\"fail\",\"message\":\"system_busy\"\x7d"

/-- What follows an `if (isCurrentSessionValid(ctx, expectedFd))`. -/
def guarded (ctx : ClientContext) (l : Login) (acts : List Act) : List Act :=
  if Registry.isCurrentSessionValid ctx l.expectedFd then acts else []

/-- The login task. -/
def login (w : World) (l : Login) (ctx : ClientContext) : LoginStage → Answer → Option Outcome
  | .guard, _ => some (w, guarded ctx l [.login .check l], [])
  | .check, .checked ok => some (w, [.login (if ok then .lastGuard else .failGuard) l], [])
  | .failGuard, _ => some (w, guarded ctx l [.sendPacket l.ctx 5 loginFailBody], [])
  | .lastGuard, _ => some (w, guarded ctx l [.login .setOnline l], [])
  | .setOnline, _ =>
      some ({ w with registry := w.registry.setOnlineUser l.username l.ctx },
        [.setAccount l.ctx l.username, .sendPacket l.ctx 5 loginSuccessBody, .login .friends l,
          .login .dispatch l],
        [.online l (w.registry.clients l.expectedFd)])
  | .friends, .friends json => some (w, guarded ctx l [.sendPacket l.ctx 12 json], [])
  | .dispatch, .messages msgs =>
      some (w, guarded ctx l (msgs.map fun msg => .sendPacket l.ctx 1 msg), [])
  | _, _ => none

/-- The step `act` of some thread. -/
def exec (w : World) (act : Act) (answer : Answer) : Option Outcome :=
  match act with
  | .event r =>
      if r.fd = 0 then some (w, [], [])
      else match w.registry.getClientCtxByFd r.fd with
        | none => some (w, [], [])
        | some c => some (w, onEvent c r, [])
  | .handleRead c => (w.registry.contexts c).bind fun ctx => handleRead w c ctx answer
  | .write c pc => (w.registry.contexts c).bind fun ctx => handleWrite w c ctx pc answer
  | .sendPacket c type data =>
      (w.registry.contexts c).bind fun ctx => sendPacket w c ctx type data
  | .enableWrite c => (w.registry.contexts c).map fun ctx => (w.modInterest ctx true, [], [])
  | .handleDisconnect fd onBehalf =>
      match w.registry.getClientCtxByFd fd with
      | none => some (w, [], [])
      | some c => some (w, [.disconnect .removeUser ⟨fd, onBehalf, c⟩], [])
  | .disconnect stage d =>
      (w.registry.contexts d.found).map fun ctx => handleDisconnect w d ctx stage
  | .accept stage c e => (w.registry.contexts c).map fun ctx => handleAccept w c e ctx stage
  | .login stage l => (w.registry.contexts l.ctx).bind fun ctx => login w l ctx stage answer
  | .setOnlineUser c accountID =>
      some ({ w with registry := w.registry.setOnlineUser accountID c }, [], [])
  | .setAccount c accountID =>
      some (w.modifyCtx c fun ctx => { ctx with accountID := accountID }, [], [])

/-! ## 5. Steps -/

variable {R W : Nat}

/-- `epoll_wait` reports a descriptor of the set at most once, and `EPOLLOUT` if asked for. -/
def Reported (w : World) (e : Nat) (ready : List Ready) : Prop :=
  (ready.map (·.fd)).Nodup ∧
    ∀ r ∈ ready, ∃ out ∈ w.interest e r.fd, r.writable = true → out = true

instance (w : World) (e : Nat) (ready : List Ready) : Decidable (Reported w e ready) := by
  unfold Reported
  infer_instance

/-- An idle thread starts something. -/
def start (s : State R W) (t : Thread R W) (w : World) (acts : List Act) :
    Option (State R W × List Event) :=
  if s.threads t = [] then some ({ world := w, threads := Function.update s.threads t acts }, [])
  else none

def step (s : State R W) : Label R W → Option (State R W × List Event)
  | .epollWait e ready =>
      if Reported s.world e ready then start s (.reactor e) s.world (ready.map .event) else none
  | .accept fd e =>
      -- The kernel does not give out a number that is in use.
      if s.world.sockets fd = none then
        start s .acceptor
          { s.world with
            registry := s.world.registry.makeCtx fd
            sockets := Function.update s.world.sockets fd (some s.world.registry.nextCtx) }
          [.accept .addClient s.world.registry.nextCtx e]
      else none
  | .send i c type data =>
      (s.world.fdOf c).bind fun _ => start s (.worker i) s.world [.sendPacket c type data]
  | .bindPacket i c senderID =>
      (s.world.fdOf c).bind fun _ =>
        start s (.worker i) s.world
          (if senderID = [] then [] else [.setOnlineUser c senderID, .setAccount c senderID])
  | .loginPacket i c username queued =>
      (s.world.fdOf c).bind fun fd =>
        if queued then
          start s (.worker i) { s.world with logins := s.world.logins ++ [⟨c, fd, username⟩] } []
        else start s (.worker i) s.world [.sendPacket c 5 systemBusyBody]
  | .startLogin i =>
      match s.world.logins with
      | [] => none
      | l :: rest => start s (.worker i) { s.world with logins := rest } [.login .guard l]
  | .move t answer =>
      match s.threads t with
      | [] => none
      | act :: acts =>
          (exec s.world act answer).map fun o =>
            ({ world := o.1, threads := Function.update s.threads t (o.2.1 ++ acts) }, o.2.2)

end Server
end EpollChat
