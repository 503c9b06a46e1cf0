import EpollChat.Buffer.Send
import EpollChat.Wire.Codec

/-!
# The send half of `ClientContext`, and its critical sections

`sendPacket` and `handleWrite` meet in four places, each a block under `sendMutex`:
`enqueue` (the body of `sendPacket`), `takeChunk` and `consumeSent` (before and after
`::send`), and `finishWrite` (the last block of `handleWrite`). They are pure functions
of the queue, so the machines of `Conn.Output` and of the whole server take the same four.
-/

namespace EpollChat

open Lib

def MAX_PENDING_SEND_BUFFER : Nat := 16 * 1024 * 1024

def WRITE_FLUSH_BUDGET_BYTES : Nat := 64 * 1024

/-! ## 1. Frames -/

/-- `uint32_t totalLength = 6 + (uint32_t)body.size();` -/
def totalLength (body : Bytes) : Nat := (6 + body.length % 2 ^ 32) % 2 ^ 32

/-- What one accepted `sendPacket(ctx, type, data)` writes: length, type, body. -/
def frame (type : UInt16) (data : Bytes) : Bytes :=
  be32 (totalLength (encodeJsonToProto type data)) ++ (be16 type ++ encodeJsonToProto type data)

/-! ## 2. The queue -/

structure SendQueue where
  heap : Heap
  pendingSendBuffer : PoolSendBuffer
  activeSendBuffer : PoolSendBuffer
  writeArmed : Bool := false
  pendingBytes : Nat := 0

namespace SendQueue

/-- A new `ClientContext`: the members are constructed in the order they are declared. -/
def create : Option SendQueue :=
  match PoolSendBuffer.create {} 4096 with
  | none => none
  | some (pending, h) =>
      match PoolSendBuffer.create h 4096 with
      | none => none
      | some (active, h') =>
          some { heap := h', pendingSendBuffer := pending, activeSendBuffer := active }

/-- The queue of a new connection: its two small allocations do not fail. -/
def fresh : SendQueue := create.get rfl

/-- The bytes not yet sent, in the order they will be. -/
def active (q : SendQueue) : Bytes := q.activeSendBuffer.content q.heap

def pending (q : SendQueue) : Bytes := q.pendingSendBuffer.content q.heap

/-! ## 3. `sendPacket` -/

/-- What the block of `sendPacket` decides: `fatalError`, or `needEnableWrite`. -/
inductive Enqueued where
  | dropped
  | queued (needEnableWrite : Bool)
deriving DecidableEq, Repr

/-- The three `append`s. -/
def appendFrame (b : PoolSendBuffer) (h : Heap) (type : UInt16) (body : Bytes) :
    Option (PoolSendBuffer × Heap) :=
  match b.append h (be32 (totalLength body)) with
  | none => none
  | some (b₁, h₁) =>
      match b₁.append h₁ (be16 type) with
      | none => none
      | some (b₂, h₂) => if body = [] then some (b₂, h₂) else b₂.append h₂ body

/-- `sendPacket` up to the end of its critical section. A body longer than a
    `std::string` can be is thrown out while it is built. -/
def enqueue (q : SendQueue) (type : UInt16) (data : Bytes) : Option (Enqueued × SendQueue) :=
  let body := encodeJsonToProto type data
  if stringMax < body.length then none
  else if MAX_PENDING_SEND_BUFFER < (q.pendingBytes + totalLength body) % 2 ^ 64 then
    some (.dropped, q)
  else match appendFrame q.pendingSendBuffer q.heap type body with
    | none => none
    | some (b, h) =>
        some (.queued (!q.writeArmed),
          { q with
            heap := h
            pendingSendBuffer := b
            pendingBytes := (q.pendingBytes + totalLength body) % 2 ^ 64
            writeArmed := true })

/-! ## 4. `handleWrite` -/

/-- `if (active.remaining() == 0 && pending.remaining() > 0) active.swap(pending);` -/
def refill (q : SendQueue) : SendQueue :=
  if q.activeSendBuffer.remaining = 0 ∧ 0 < q.pendingSendBuffer.remaining then
    { q with activeSendBuffer := q.pendingSendBuffer, pendingSendBuffer := q.activeSendBuffer }
  else q

/-- The first block of the loop: what to send, or `none` for its two `break`s. -/
def takeChunk (q : SendQueue) (flushed : Nat) : Option ((Nat × Nat) × Nat) × SendQueue :=
  let q' := q.refill
  if q'.activeSendBuffer.remaining = 0 then (none, q')
  else
    let canSend := min q'.activeSendBuffer.remaining (WRITE_FLUSH_BUDGET_BYTES - flushed)
    if canSend = 0 then (none, q') else (some (q'.activeSendBuffer.currentData, canSend), q')

/-- What `::send(fd, ptr, …)` reads if it takes `n` bytes. -/
def readAt (q : SendQueue) (ptr : Nat × Nat) (n : Nat) : Bytes :=
  slice (q.heap.bytes ptr.1) ptr.2 n

/-- The second block of the loop. -/
def consumeSent (q : SendQueue) (sent : Nat) : SendQueue :=
  { q with
    activeSendBuffer := q.activeSendBuffer.consume sent
    pendingBytes := if sent ≤ q.pendingBytes then q.pendingBytes - sent else 0 }

def isEmpty (q : SendQueue) : Bool :=
  q.activeSendBuffer.remaining == 0 && q.pendingSendBuffer.remaining == 0

/-- The last block: `disableWrite`, and the queue. The second look at the buffers is made
    under the same lock as the first. -/
def finishWrite (q : SendQueue) : Bool × SendQueue :=
  if q.isEmpty then
    let q₁ := { q with writeArmed := false }
    if q₁.isEmpty then (true, q₁) else (false, { q₁ with writeArmed := true })
  else (false, q)

end SendQueue

end EpollChat
