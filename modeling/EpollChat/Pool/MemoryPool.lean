import EpollChat.Lib.Machine
import EpollChat.Pool.CentralCache

/-!
# The memory pool under any number of threads

A call of `MemoryPool::allocate` that finds a block in the thread's own list is one step. One
that does not goes through `fetchRange`, which is cut where another thread can come in: before
the spin lock of the size class, before the page cache's mutex, after it, and after the lock
has been released. `deallocate` is one step, as it only touches the thread's own list (the
path back to the central cache is commented out in the source). Between the steps the owners
of the live blocks write what they like into them.

The state keeps the live blocks, with the size they were asked for. Requests above
`MAX_BYTES` go to `malloc`, whose answer is part of the call: it lies apart from what `mmap`
has given out and from the other live blocks of that kind.
-/

namespace EpollChat
namespace Pool

open Lib

/-! ## 1. States -/

structure ThreadCache where
  freeList : Nat → Nat := fun _ => 0
  freeListSize : Nat → Nat := fun _ => 0

structure Block where
  addr : Nat
  size : Nat
deriving DecidableEq, Repr

/-- What the pool has set aside for a block. -/
def Block.range (b : Block) : Range :=
  ⟨b.addr, if b.size ≤ MAX_BYTES then blockSize (getIndex b.size) else b.size⟩

/-- Where a call of `allocate(size)` is. -/
inductive Pc where
  | idle
  /-- In front of the spin lock. -/
  | wantLock (size index : Nat)
  /-- It holds the lock; the central list is empty. -/
  | needSpan (size index : Nat)
  /-- It holds the lock, and a new span. -/
  | gotSpan (size index : Nat) (start : Nat)
  /-- `fetchRange` has returned. -/
  | gotRange (size index : Nat) (start : Nat)
deriving DecidableEq, Repr

structure State where
  mem : Memory := {}
  pages : PageCache := {}
  central : CentralCache := {}
  caches : Nat → ThreadCache := fun _ => {}
  locks : Nat → Bool := fun _ => false
  threads : Nat → Pc := fun _ => .idle
  live : List Block := []

inductive Event where
  | allocated (tid : Nat) (b : Block)
  | failed (tid : Nat)
  | freed (tid : Nat) (b : Block)
deriving DecidableEq, Repr

inductive Label where
  | allocate (tid size : Nat) (malloc : Nat)
  | lock (tid : Nat)
  | span (tid : Nat) (answer : Option Nat)
  | carve (tid : Nat)
  | finish (tid rounds : Nat)
  | deallocate (tid : Nat) (b : Block)
  | write (b : Block) (a : Nat) (v : Nat)
deriving DecidableEq, Repr

/-! ## 2. The thread's own lists -/

def setCache (s : State) (tid : Nat) (c : ThreadCache) : State :=
  { s with caches := Function.update s.caches tid c }

def setPc (s : State) (tid : Nat) (pc : Pc) : State :=
  { s with threads := Function.update s.threads tid pc }

def setLock (s : State) (index : Nat) (b : Bool) : State :=
  { s with locks := Function.update s.locks index b }

/-- `freeList_[index] = head`, with the count it comes with. -/
def ThreadCache.set (c : ThreadCache) (index : Nat) (head : Nat) (size : Nat) : ThreadCache :=
  { freeList := Function.update c.freeList index head
    freeListSize := Function.update c.freeListSize index size }

/-- The block is handed to the caller. -/
def hand (s : State) (tid : Nat) (b : Block) : State × List Event :=
  ({ s with live := b :: s.live }, [.allocated tid b])

/-- What `malloc` may answer. -/
def MallocFresh (s : State) (b : Block) : Prop :=
  0 < b.addr ∧ (∀ r ∈ s.mem.regions, b.range.Apart r) ∧
    ∀ b' ∈ s.live, MAX_BYTES < b'.size → b.range.Apart b'.range

instance (s : State) (b : Block) : Decidable (MallocFresh s b) :=
  inferInstanceAs (Decidable (_ ∧ _ ∧ _))

/-- `ThreadCache::allocate`, up to `fetchFromCentralCache`. -/
def allocate (s : State) (tid size : Nat) (malloc : Nat) : Option (State × List Event) :=
  let size' := if size = 0 then ALIGNMENT else size
  if MAX_BYTES < size' then
    if malloc = 0 then some (s, [.failed tid])
    else if MallocFresh s ⟨malloc, size⟩ then some (hand s tid ⟨malloc, size⟩)
    else none
  else
    let index := getIndex size'
    let c := s.caches tid
    let ptr := c.freeList index
    if ptr ≠ 0 then
      let s' := setCache s tid (c.set index (s.mem.word ptr) (c.freeListSize index - 1))
      some (hand s' tid ⟨ptr, size⟩)
    else some (setPc s tid (.wantLock size index), [])

/-- `ThreadCache::deallocate`. -/
def deallocate (s : State) (tid : Nat) (b : Block) : State × List Event :=
  let s' := { s with live := s.live.erase b }
  if MAX_BYTES < b.size then (s', [.freed tid b])
  else
    let index := getIndex b.size
    let c := s.caches tid
    (setCache { s' with mem := s.mem.store b.addr (c.freeList index) } tid
      (c.set index b.addr (c.freeListSize index + 1)), [.freed tid b])

/-! ## 3. `fetchRange` and what follows it -/

/-- Up to the release of the lock, or to the call of the page cache. -/
def lockSection (s : State) (tid size index : Nat) : Option (State × List Event) :=
  if FREE_LIST_SIZE ≤ index then some (setPc s tid .idle, [.failed tid])
  else if s.locks index then none
  else
    let head := s.central.centralFreeList index
    if head ≠ 0 then
      let (c, m) := takeHead s.central s.mem index head
      some (setPc { s with central := c, mem := m } tid (.gotRange size index head), [])
    else some (setPc (setLock s index true) tid (.needSpan size index), [])

/-- The section under the page cache's mutex. The kernel gives no memory that `malloc` has
    given out. -/
def spanSection (s : State) (tid size index : Nat) (answer : Option Nat) :
    Option (State × List Event) :=
  let numPages := spanPages (blockSize index)
  if ∀ a ∈ answer, ∀ b ∈ s.live, MAX_BYTES < b.size → b.range.Apart ⟨a, numPages * PAGE_SIZE⟩ then
    match s.pages.allocateSpan s.mem numPages answer with
    | none => none
    | some (p, m, a) =>
        let s' := { s with pages := p, mem := m }
        if a = 0 then some (setPc (setLock s' index false) tid .idle, [.failed tid])
        else some (setPc s' tid (.gotSpan size index a), [])
  else none

def carveSection (s : State) (tid size index : Nat) (start : Nat) : State × List Event :=
  let (c, m) := Pool.carve s.central s.mem index start
  (setPc (setLock { s with central := c, mem := m } index false) tid (.gotRange size index start), [])

/-- The rest of `fetchFromCentralCache`: keep what is behind the first block. -/
def finish (s : State) (tid size index : Nat) (start : Nat) (rounds : Nat) :
    Option (State × List Event) :=
  let head := s.mem.word start
  match walk 0 s.mem.word rounds head with
  | none => none
  | some blocks =>
      let c := s.caches tid
      let s' := setPc (setCache s tid (c.set index head (c.freeListSize index + blocks.length)))
        tid .idle
      some (hand s' tid ⟨start, size⟩)

/-! ## 4. Steps -/

def step (s : State) : Label → Option (State × List Event)
  | .allocate tid size malloc =>
      match s.threads tid with
      | .idle => allocate s tid size malloc
      | _ => none
  | .lock tid =>
      match s.threads tid with
      | .wantLock size index => lockSection s tid size index
      | _ => none
  | .span tid answer =>
      match s.threads tid with
      | .needSpan size index => spanSection s tid size index answer
      | _ => none
  | .carve tid =>
      match s.threads tid with
      | .gotSpan size index start => some (carveSection s tid size index start)
      | _ => none
  | .finish tid rounds =>
      match s.threads tid with
      | .gotRange size index start => finish s tid size index start rounds
      | _ => none
  | .deallocate tid b =>
      match s.threads tid with
      | .idle => if b ∈ s.live then some (deallocate s tid b) else none
      | _ => none
  | .write b a v =>
      if b ∈ s.live ∧ b.range.start ≤ a ∧ a < b.range.start + b.range.bytes then
        some ({ s with mem := s.mem.store a v }, [])
      else none

end Pool
end EpollChat
