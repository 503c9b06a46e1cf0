import EpollChat.Lib.Ring
import EpollChat.Text

/-!
# `PoolRecvBuffer`

The ring buffer that holds what has been received and not yet parsed. Its capacity is a
power of two, so that a position is reduced with a mask; every copy is made in two
pieces, up to the end of the vector and from its start.

Sizes are `size_t`, and what can wrap is written with its modulus. `nextPowerOfTwo` of
more than `2 ^ 63` wraps to 0: `append` then copies into a vector too small for it, which
is what `none` stands for.
-/

namespace EpollChat

open Lib

/-- `m_buf` is a vector: its size, and its bytes. -/
structure PoolRecvBuffer where
  capacity : Nat
  bytes : Nat → UInt8 := fun _ => 0
  m_read : Nat := 0
  m_size : Nat := 0

namespace PoolRecvBuffer

/-- `n |= n >> 1; n |= n >> 2; … n |= n >> 32;` -/
def smear (n : Nat) : Nat :=
  let n := n ||| n >>> 1
  let n := n ||| n >>> 2
  let n := n ||| n >>> 4
  let n := n ||| n >>> 8
  let n := n ||| n >>> 16
  n ||| n >>> 32

def nextPowerOfTwo (x : Nat) : Nat :=
  let n := if x ≤ 1 then 1 else x
  if n &&& (n - 1) = 0 then n else (smear (n - 1) + 1) % 2 ^ 64

/-- The constructor; the default argument is 4096. -/
def create (initialCapacity : Nat) : PoolRecvBuffer := { capacity := nextPowerOfTwo initialCapacity }

def size (b : PoolRecvBuffer) : Nat := b.m_size

/-- Regrowing copies the content to the front of a new vector. -/
def ensureCapacityForAppend (b : PoolRecvBuffer) (appendLen : Nat) : Option PoolRecvBuffer :=
  if appendLen ≤ b.capacity - b.m_size then some b
  else
    let required := (b.m_size + appendLen) % 2 ^ 64
    let newCapacity := nextPowerOfTwo required
    if newCapacity < required then none
    else
      let first := min b.m_size (b.capacity - b.m_read)
      some { b with
        capacity := newCapacity
        bytes := put (put (fun _ => 0) 0 (slice b.bytes b.m_read first)) first
          (slice b.bytes 0 (b.m_size - first))
        m_read := 0 }

def append (b : PoolRecvBuffer) (src : Bytes) : Option PoolRecvBuffer :=
  if src.length = 0 then some b
  else match b.ensureCapacityForAppend src.length with
    | none => none
    | some b' =>
        let writePos := (b'.m_read + b'.m_size) &&& (b'.capacity - 1)
        some { b' with
          bytes := ringPut b'.bytes b'.capacity writePos src
          m_size := b'.m_size + src.length }

/-- `none` is the source's `false`. -/
def peek (b : PoolRecvBuffer) (len offset : Nat) : Option Bytes :=
  if b.m_size < (offset + len) % 2 ^ 64 then none
  else
    let start := (b.m_read + offset) &&& (b.capacity - 1)
    let first := min len (b.capacity - start)
    some (slice b.bytes start first ++ slice b.bytes 0 (len - first))

def peekString (b : PoolRecvBuffer) (offset len : Nat) : Bytes :=
  if len = 0 then [] else (b.peek len offset).getD []

def consume (b : PoolRecvBuffer) (len : Nat) : PoolRecvBuffer :=
  if b.m_size ≤ len then { b with m_read := 0, m_size := 0 }
  else { b with m_read := (b.m_read + len) &&& (b.capacity - 1), m_size := b.m_size - len }

/-- The bytes received and not yet consumed. -/
def content (b : PoolRecvBuffer) : Bytes := ring b.bytes b.capacity b.m_read b.m_size

end PoolRecvBuffer

end EpollChat
