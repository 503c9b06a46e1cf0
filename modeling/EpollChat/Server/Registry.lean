import EpollChat.Conn.SendQueue
import Mathlib.Logic.Function.Basic

/-!
# Connections and accounts

Three tables and what the server does to them. Contexts are shared objects, so a context
has an identity of its own here, apart from its descriptor: descriptor numbers are given
out again, contexts are not. `clients` is `m_clientShards` and `users` is
`m_onlineUserShards`; the shard a key lives in is a function of the key, so a table of
shards is one table, and each lock is held for exactly one of the functions below.

`users` holds weak pointers. `getOnlineCtx` finds an entry whose context is gone, and
answers as if there were none.
-/

namespace EpollChat

/-- The members of `ClientContext` that the connection-level code uses; the receive buffer
    is `Conn.Input`'s. -/
structure ClientContext where
  fd : Nat
  reactorEpollFd : Option Nat := none
  accountID : Bytes := []
  queue : SendQueue := .fresh

structure Registry where
  contexts : Nat → Option ClientContext := fun _ => none
  nextCtx : Nat := 0
  clients : Nat → Option Nat := fun _ => none
  users : Bytes → Option Nat := fun _ => none

namespace Registry

/-! ## 1. Contexts -/

/-- `std::make_shared<ClientContext>()`, with its `fd` set. -/
def makeCtx (r : Registry) (fd : Nat) : Registry :=
  { r with
    contexts := Function.update r.contexts r.nextCtx (some { fd := fd })
    nextCtx := r.nextCtx + 1 }

/-- Write to a context. -/
def modifyCtx (r : Registry) (c : Nat) (f : ClientContext → ClientContext) : Registry :=
  { r with contexts := Function.update r.contexts c ((r.contexts c).map f) }

/-- The last `shared_ptr` to a context is gone. -/
def destroyCtx (r : Registry) (c : Nat) : Registry :=
  { r with contexts := Function.update r.contexts c none }

/-! ## 2. The client table -/

def addClientCtx (r : Registry) (c fd : Nat) : Registry :=
  { r with clients := Function.update r.clients fd (some c) }

def removeClientCtx (r : Registry) (fd : Nat) : Registry :=
  { r with clients := Function.update r.clients fd none }

def getClientCtxByFd (r : Registry) (fd : Nat) : Option Nat := r.clients fd

/-! ## 3. The online table -/

def setOnlineUser (r : Registry) (accountID : Bytes) (c : Nat) : Registry :=
  if accountID = [] then r else { r with users := Function.update r.users accountID (some c) }

def getOnlineCtx (r : Registry) (accountID : Bytes) : Option Nat :=
  if accountID = [] then none
  else match r.users accountID with
    | none => none
    | some c => if (r.contexts c).isSome then some c else none

def removeOnlineUser (r : Registry) (accountID : Bytes) : Registry :=
  if accountID = [] then r else { r with users := Function.update r.users accountID none }

/-! ## 4. Sessions -/

/-- `isCurrentSessionValid` compares two numbers. -/
def isCurrentSessionValid (ctx : ClientContext) (expectedFd : Nat) : Bool := ctx.fd == expectedFd

/-- What a bind, or a login that has succeeded, does to the tables. -/
def identify (r : Registry) (c : Nat) (accountID : Bytes) : Registry :=
  (r.setOnlineUser accountID c).modifyCtx c fun ctx => { ctx with accountID := accountID }

/-- What `handleDisconnect` does to the tables. -/
def unregister (r : Registry) (fd : Nat) (ctx : ClientContext) : Registry :=
  (if ctx.accountID = [] then r else r.removeOnlineUser ctx.accountID).removeClientCtx fd

end Registry

end EpollChat
