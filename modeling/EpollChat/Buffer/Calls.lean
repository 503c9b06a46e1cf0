import EpollChat.Buffer.Recv
import EpollChat.Buffer.Send
import EpollChat.Lib.Machine
import Mathlib.Logic.Function.Basic

/-!
# The calls on the two buffers

A buffer is used through its public functions, in any order and with any arguments. Each of the
two machines below takes one call at a time; an argument of type `size_t` is a `UInt64`. The
answers are what a call returns.

Beside each machine stands the queue of bytes it is meant to be, with the bound on its content
beyond which nothing is said.
-/

namespace EpollChat

open Lib

/-! ## 1. One receive buffer -/

namespace PoolRecvBuffer

inductive Call where
  | append (src : Bytes)
  | consume (len : UInt64)
  | peek (len offset : UInt64)
  | peekString (offset len : UInt64)
deriving DecidableEq, Repr

/-- What `peek` leaves at `dst` if it returns `true`, and the string of `peekString`. -/
inductive Answer where
  | peek (dst : Option Bytes)
  | peekString (out : Bytes)
deriving DecidableEq, Repr

def call (b : PoolRecvBuffer) : Call → Option (PoolRecvBuffer × List Answer)
  | .append src =>
      match b.append src with
      | none => none
      | some b' => some (b', [])
  | .consume len => some (b.consume len.toNat, [])
  | .peek len offset => some (b, [.peek (b.peek len.toNat offset.toNat)])
  | .peekString offset len => some (b, [.peekString (b.peekString offset.toNat len.toNat)])

/-- The bytes `[offset, offset + len)`, if all of them are there. -/
def window (content : Bytes) (len offset : Nat) : Option Bytes :=
  if offset + len ≤ content.length then some ((content.drop offset).take len) else none

/-- The queue a receive buffer is meant to be. -/
def queueCall (content : Bytes) : Call → Option (Bytes × List Answer)
  | .append src => if content.length + src.length < 2 ^ 63 then some (content ++ src, []) else none
  | .consume len => some (content.drop (min len.toNat content.length), [])
  | .peek len offset => some (content, [.peek (window content len.toNat offset.toNat)])
  | .peekString offset len =>
      some (content, [.peekString ((window content len.toNat offset.toNat).getD [])])

end PoolRecvBuffer

/-! ## 2. Two send buffers -/

namespace PoolSendBuffer

inductive Which where
  | one
  | other
deriving DecidableEq, Repr

/-- Two objects over one memory pool. -/
structure Pair where
  buffer : Which → PoolSendBuffer
  heap : Heap

inductive Call where
  | append (i : Which) (src : Bytes)
  | consume (i : Which) (len : UInt64)
  | swap (i j : Which)
deriving DecidableEq, Repr

/-- The two constructors. -/
def createPair (h : Heap) (capacity otherCapacity : Nat) : Option Pair :=
  match create h capacity with
  | none => none
  | some (b, h₁) =>
      match create h₁ otherCapacity with
      | none => none
      | some (b', h₂) =>
          some { buffer := fun | .one => b | .other => b', heap := h₂ }

def call (s : Pair) : Call → Option (Pair × List Empty)
  | .append i src =>
      match (s.buffer i).append s.heap src with
      | none => none
      | some (b, h) => some ({ buffer := Function.update s.buffer i b, heap := h }, [])
  | .consume i len =>
      some ({ s with buffer := Function.update s.buffer i ((s.buffer i).consume len.toNat) }, [])
  | .swap i j =>
      some ({ s with
        buffer := Function.update (Function.update s.buffer i (s.buffer j)) j (s.buffer i) }, [])

/-- The two destructors. -/
def destroyPair (s : Pair) : Heap := (s.buffer .other).destroy ((s.buffer .one).destroy s.heap)

/-- The two queues they are meant to be. -/
def queueCall (content : Which → Bytes) : Call → Option ((Which → Bytes) × List Empty)
  | .append i src =>
      if (content i).length + src.length < 2 ^ 62 then
        some (Function.update content i (content i ++ src), [])
      else none
  | .consume i len =>
      some (Function.update content i ((content i).drop (min len.toNat (content i).length)), [])
  | .swap i j =>
      some (Function.update (Function.update content i (content j)) j (content i), [])

end PoolSendBuffer

end EpollChat
