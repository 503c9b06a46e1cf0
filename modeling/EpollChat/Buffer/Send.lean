import EpollChat.Lib.Slice
import EpollChat.Text

/-!
# `PoolSendBuffer`

The buffer is the source's four words: a capacity, a size, an offset and a pointer. The
pointer names a block of a heap, because that is where the interesting part is. `append`
may move the unsent bytes to the front of their block, or into another block and give
the old one back; `handleWrite` meanwhile holds a raw pointer into a block with no lock.
So blocks have identity, and `deallocate` overwrites what it frees: a read through a
stale pointer does not see the bytes that used to be there.

Sizes are `size_t`. What can wrap is written with its modulus. `none` is a call that does
not come back: the doubling loop on a capacity that has wrapped to 0, or the `memcpy`
into the null pointer an allocation beyond `PTRDIFF_MAX` returns.
-/

namespace EpollChat

open Lib

/-! ## 1. The blocks of `MemoryPool::allocate` -/

/-- `blockSize` and `frees` record the sizes the two entry points were called with. -/
structure Heap where
  next : Nat := 0
  bytes : Nat → Nat → UInt8 := fun _ _ => 0
  blockSize : Nat → Nat := fun _ => 0
  frees : List (Nat × Nat) := []

namespace Heap

/-- Replace the bytes of one block. -/
def setBlock (h : Heap) (b : Nat) (f : Nat → UInt8) : Heap :=
  { h with bytes := fun b' => if b' = b then f else h.bytes b' }

/-- `MemoryPool::allocate`: a block no one else holds. -/
def allocate (h : Heap) (size : Nat) : Option (Nat × Heap) :=
  if 2 ^ 63 ≤ size then none
  else some (h.next, { h with
    next := h.next + 1
    blockSize := fun b => if b = h.next then size else h.blockSize b })

/-- `MemoryPool::deallocate`: from now on the block is someone else's to write. -/
def deallocate (h : Heap) (b size : Nat) : Heap :=
  { h.setBlock b (fun _ => 0xDD) with frees := h.frees ++ [(b, size)] }

end Heap

/-! ## 2. The buffer -/

structure PoolSendBuffer where
  m_capacity : Nat
  m_size : Nat := 0
  m_offset : Nat := 0
  m_data : Nat

namespace PoolSendBuffer

/-- The constructor; the default argument is 4096. -/
def create (h : Heap) (initialCapacity : Nat) : Option (PoolSendBuffer × Heap) :=
  match h.allocate initialCapacity with
  | none => none
  | some (data, h') => some ({ m_capacity := initialCapacity, m_data := data }, h')

/-- `~PoolSendBuffer`; `m_data` is never null. -/
def destroy (b : PoolSendBuffer) (h : Heap) : Heap := h.deallocate b.m_data b.m_capacity

def remaining (b : PoolSendBuffer) : Nat := b.m_size - b.m_offset

/-- `currentData()`, as a block and a position in it. -/
def currentData (b : PoolSendBuffer) : Nat × Nat := (b.m_data, b.m_offset)

def consume (b : PoolSendBuffer) (len : Nat) : PoolSendBuffer :=
  let offset := (b.m_offset + len) % 2 ^ 64
  if b.m_size ≤ offset then { b with m_offset := 0, m_size := 0 }
  else { b with m_offset := offset }

/-- `while (newCapacity < required) newCapacity *= 2;`. After 64 doublings the capacity
    is 0 and stays there. -/
def growCapacity : Nat → Nat → Nat → Option Nat
  | 0, _, _ => none
  | n + 1, cap, required =>
      if cap < required then growCapacity n (cap * 2 % 2 ^ 64) required else some cap

/-- The first half of `ensureCapacityForAppend`: move what is unsent to the front. -/
def compact (b : PoolSendBuffer) (h : Heap) : PoolSendBuffer × Heap :=
  if 0 < b.m_offset then
    let remain := b.m_size - b.m_offset
    ({ b with m_size := remain, m_offset := 0 },
      h.setBlock b.m_data
        (put (h.bytes b.m_data) 0 (slice (h.bytes b.m_data) b.m_offset remain)))
  else (b, h)

/-- The second half: a larger block if what is there will not do. -/
def grow (b : PoolSendBuffer) (h : Heap) (appendLen : Nat) : Option (PoolSendBuffer × Heap) :=
  let required := (b.m_size + appendLen) % 2 ^ 64
  if required ≤ b.m_capacity then some (b, h)
  else match growCapacity 65 b.m_capacity required with
    | none => none
    | some newCapacity =>
        match h.allocate newCapacity with
        | none => none
        | some (newData, h') =>
            let h'' := h'.setBlock newData
              (put (h'.bytes newData) 0 (slice (h'.bytes b.m_data) 0 b.m_size))
            some ({ b with m_data := newData, m_capacity := newCapacity },
              h''.deallocate b.m_data b.m_capacity)

def ensureCapacityForAppend (b : PoolSendBuffer) (h : Heap) (appendLen : Nat) :
    Option (PoolSendBuffer × Heap) :=
  (b.compact h).1.grow (b.compact h).2 appendLen

def append (b : PoolSendBuffer) (h : Heap) (src : Bytes) : Option (PoolSendBuffer × Heap) :=
  if src.length = 0 then some (b, h)
  else match b.ensureCapacityForAppend h src.length with
    | none => none
    | some (b', h') =>
        some ({ b' with m_size := (b'.m_size + src.length) % 2 ^ 64 },
          h'.setBlock b'.m_data (put (h'.bytes b'.m_data) b'.m_size src))

/-- The bytes between the two marks: `currentData()[0, remaining())`. -/
def content (b : PoolSendBuffer) (h : Heap) : Bytes :=
  slice (h.bytes b.m_data) b.m_offset b.remaining

end PoolSendBuffer

end EpollChat
