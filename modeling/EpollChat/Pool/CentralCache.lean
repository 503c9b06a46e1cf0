import EpollChat.Lib.Chain
import EpollChat.Pool.PageCache

/-!
# The central cache

One free list per size class, and a table of the spans that have been cut into blocks. The
functions here are the bodies of the critical sections; who holds which spin lock is said in
the machines that run them.

`freeCount` is an unsigned 64-bit counter and wraps. A loop that follows the links of a list
is given a number of rounds and has no result if they do not do: a run in which it ends is a
run with enough of them.
-/

namespace EpollChat
namespace Pool

open Lib

def SPAN_PAGES : Nat := 8

def MAX_DELAY_COUNT : Nat := 48

/-- In milliseconds. -/
def DELAY_INTERVAL : Int := 1000

/-- The size of `spanTrackers_`. -/
def TRACKERS : Nat := 1024

structure SpanTracker where
  spanAddr : Nat := 0
  numPages : Nat := 0
  blockCount : Nat := 0
  freeCount : UInt64 := 0
deriving DecidableEq, Repr

structure CentralCache where
  centralFreeList : Nat → Nat := fun _ => 0
  spanTrackers : Nat → SpanTracker := fun _ => {}
  spanCount : Nat := 0
  delayCounts : Nat → Nat := fun _ => 0
  lastReturnTimes : Nat → Int := fun _ => 0

/-! ## 1. Spans and their trackers -/

/-- The pages `fetchFromPageCache` asks for, and `fetchRange` cuts up. -/
def spanPages (size : Nat) : Nat :=
  if size ≤ SPAN_PAGES * PAGE_SIZE then SPAN_PAGES else (size + PAGE_SIZE - 1) / PAGE_SIZE

def blockNum (size : Nat) : Nat := spanPages size * PAGE_SIZE / size

def SpanTracker.Covers (t : SpanTracker) (a : Nat) : Prop :=
  t.spanAddr ≠ 0 ∧ t.numPages ≠ 0 ∧ t.spanAddr ≤ a ∧ a < t.spanAddr + t.numPages * PAGE_SIZE

instance (t : SpanTracker) (a : Nat) : Decidable (t.Covers a) :=
  inferInstanceAs (Decidable (_ ∧ _ ∧ _ ∧ _))

namespace CentralCache

/-- The first tracker that covers the block. -/
def getSpanTracker (c : CentralCache) (blockAddr : Nat) : Option Nat :=
  (List.range (min c.spanCount TRACKERS)).find? fun i => decide ((c.spanTrackers i).Covers blockAddr)

def setHead (c : CentralCache) (index : Nat) (a : Nat) : CentralCache :=
  { c with centralFreeList := Function.update c.centralFreeList index a }

def setTracker (c : CentralCache) (i : Nat) (t : SpanTracker) : CentralCache :=
  { c with spanTrackers := Function.update c.spanTrackers i t }

/-- Record a span that has just been cut up. -/
def publish (c : CentralCache) (t : SpanTracker) : CentralCache :=
  let c' := { c with spanCount := c.spanCount + 1 }
  if c.spanCount < TRACKERS then c'.setTracker c.spanCount t else c'

end CentralCache

/-! ## 2. `fetchRange` -/

/-- The branch that finds `result` on the list. -/
def takeHead (c : CentralCache) (m : Memory) (index : Nat) (result : Nat) : CentralCache × Memory :=
  let next := m.word result
  let m' := m.store result 0
  let c' := c.setHead index next
  match c'.getSpanTracker result with
  | none => (c', m')
  | some i =>
      let t := c'.spanTrackers i
      (c'.setTracker i { t with freeCount := t.freeCount - 1 }, m')

/-- The loop that links `n` further blocks behind the first. -/
def linkBlocks (m : Memory) (start size : Nat) : Nat → Memory
  | 0 => m
  | n + 1 =>
      let m' := linkBlocks m start size n
      m'.store (start + n * size) (start + (n + 1) * size)

/-- The branch that cuts up a new span. A span of one block is left as `mmap` gave it. -/
def carve (c : CentralCache) (m : Memory) (index start : Nat) : CentralCache × Memory :=
  let size := blockSize index
  let n := blockNum size
  if 1 < n then
    let m₁ := linkBlocks m start size (n - 1)
    let m₂ := m₁.store (start + (n - 1) * size) 0
    let next := m₂.word start
    let m₃ := m₂.store start 0
    ((c.setHead index next).publish
      { spanAddr := start, numPages := spanPages size, blockCount := n
        freeCount := UInt64.ofNat (n - 1) }, m₃)
  else (c, m)

/-! ## 3. `returnRange` -/

/-- The end of the first `n + 1` blocks of a returned list. -/
def lastBlock (m : Memory) : Nat → Nat → Nat
  | 0, a => a
  | n + 1, a => if m.word a = 0 then a else lastBlock m n (m.word a)

/-- Put the returned blocks in front of the list. -/
def linkReturned (c : CentralCache) (m : Memory) (start size index : Nat) : CentralCache × Memory :=
  let last := lastBlock m (size / blockSize index - 1) start
  (c.setHead index start, m.store last (c.centralFreeList index))

def shouldPerformDelayedReturn (c : CentralCache) (index currentCount : Nat) (currentTime : Int) :
    Bool :=
  MAX_DELAY_COUNT ≤ currentCount || DELAY_INTERVAL ≤ currentTime - c.lastReturnTimes index

/-- `spanFreeCounts`: how many of the blocks each tracker covers. -/
def spanFreeCount (c : CentralCache) (blocks : List Nat) (tracker : Nat) : Nat :=
  blocks.countP fun a => c.getSpanTracker a = some tracker

/-- The loop of `updateSpanFreeCount` that takes the blocks of a span off the list. -/
def unlinkSpan (t : SpanTracker) : Nat → Memory → Nat → Nat → Nat → Option (Memory × Nat)
  | rounds, m, newHead, prev, current =>
      if current = 0 then some (m, newHead)
      else
        match rounds with
        | 0 => none
        | rounds + 1 =>
            let next := m.word current
            if t.spanAddr ≤ current ∧ current < t.spanAddr + t.numPages * PAGE_SIZE then
              if prev ≠ 0 then unlinkSpan t rounds (m.store prev next) newHead prev next
              else unlinkSpan t rounds m next prev next
            else unlinkSpan t rounds m newHead current next

end Pool
end EpollChat
