import EpollChat.Lib.Machine
import EpollChat.Server.Registry

/-!
# Binds, logins and disconnects

The server as its users see it: connections come, identify themselves with a type 3 or a
type 4 packet, as often as they like, and go. Each of these is one step. A packet may be
processed after its connection has gone, since its task holds the context; once no task
does, the context is destroyed.

`lastBound` is not in the source: it remembers who identified itself as an account last.
-/

namespace EpollChat
namespace Sessions

structure State where
  registry : Registry := {}
  lastBound : Bytes → Option Nat := fun _ => none

/-- `bind` is a type 3 packet with its `sender`, `login` a type 4 packet whose password the
    database has accepted. -/
inductive Label where
  | accept (fd : Nat)
  | bind (c : Nat) (senderID : Bytes)
  | login (c : Nat) (username : Bytes)
  | disconnect (fd : Nat)
  | destroy (c : Nat)
deriving DecidableEq, Repr

/-- `c` is in the client table, under its own descriptor. -/
def Registered (r : Registry) (c : Nat) : Prop := ∃ ctx, r.contexts c = some ctx ∧ r.clients ctx.fd = some c

instance (r : Registry) : DecidablePred (Registered r) := fun c =>
  match h : r.contexts c with
  | none => isFalse (by rintro ⟨ctx, h', -⟩; rw [h] at h'; exact absurd h' (by simp))
  | some ctx =>
      decidable_of_iff (r.clients ctx.fd = some c) (by simp [Registered, h])

/-- `setOnlineUser(accountID, ctx); ctx->accountID = accountID;` -/
def identify (s : State) (c : Nat) (accountID : Bytes) : State :=
  { registry := s.registry.identify c accountID
    lastBound := Function.update s.lastBound accountID (some c) }

def step (s : State) : Label → Option (State × List Unit)
  | .accept fd =>
      -- The kernel does not give out a number that is in use.
      match s.registry.clients fd with
      | none => some ({ s with
          registry := (s.registry.makeCtx fd).addClientCtx s.registry.nextCtx fd }, [])
      | some _ => none
  | .bind c senderID =>
      match s.registry.contexts c with
      | none => none
      | some _ => some (if senderID = [] then s else identify s c senderID, [])
  | .login c username =>
      match s.registry.contexts c with
      | none => none
      | some ctx =>
          -- `expectedFd` was read from the same context.
          if Registry.isCurrentSessionValid ctx ctx.fd then some (identify s c username, [])
          else some (s, [])
  | .disconnect fd =>
      match s.registry.getClientCtxByFd fd with
      | none => some (s, [])
      | some c =>
          match s.registry.contexts c with
          | none => none
          | some ctx => some ({ s with registry := s.registry.unregister fd ctx }, [])
  | .destroy c =>
      if Registered s.registry c then none
      else some ({ s with registry := s.registry.destroyCtx c }, [])

end Sessions
end EpollChat
