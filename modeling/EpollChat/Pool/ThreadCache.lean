import EpollChat.Pool.Calls
import EpollChat.Pool.MemoryPool

/-!
# A thread's own free lists

`returnToCentralCache` counts the list it is given, keeps a quarter of it and hands the rest to
the central cache. `deallocate` does not call it for the time being (the call is commented out);
here it is followed to its end, through `returnRange` and a delayed return.

The machine of the second section is one thread's cache and nothing else. All that the rest of
the program does to it is to write into blocks that are on none of its lists, and to answer its
calls of `fetchRange`.
-/

namespace EpollChat
namespace Pool

open Lib

/-- `SizeClass::roundUp`; `~(ALIGNMENT - 1)` has all the bits of a `size_t` but the lowest. -/
def roundUp (bytes : Nat) : Nat := (bytes + ALIGNMENT - 1) % 2 ^ 64 &&& (2 ^ 64 - ALIGNMENT)

/-! ## 1. `returnToCentralCache` -/

def keepNum (batchNum : Nat) : Nat := max (batchNum / 4) 1

namespace ThreadCache

/-- Up to the call of `returnRange`, and the first two arguments of that call, if it is made. -/
def split (c : ThreadCache) (m : Memory) (start size rounds : Nat) :
    Option (ThreadCache × Memory × Option (Nat × Nat)) :=
  let index := getIndex size
  let alignedSize := roundUp size
  match walk 0 m.word rounds start with
  | none => none
  | some blocks =>
      let batchNum := blocks.length
      if batchNum ≤ 1 then some (c, m, none)
      else
        let returnNum := batchNum - keepNum batchNum
        let splitNode := m.word^[keepNum batchNum - 1] start
        let nextNode := m.word splitNode
        let c' := c.set index start (keepNum batchNum)
        let m' := m.store splitNode 0
        if 0 < returnNum ∧ nextNode ≠ 0 then
          some (c', m', some (nextNode, returnNum * alignedSize % 2 ^ 64))
        else some (c', m', none)

def returnToCentralCache (c : ThreadCache) (s : Calls.State) (start size : Nat) (now later : Int)
    (order : List Nat) (rounds : Nat) : Option (ThreadCache × Calls.State × List Calls.Event) :=
  match c.split s.mem start size rounds with
  | none => none
  | some (c', m', none) => some (c', { s with mem := m' }, [])
  | some (c', m', some (nextNode, bytes)) =>
      match Calls.returnRange { s with mem := m' } nextNode bytes (getIndex size) now later order rounds with
      | none => none
      | some (s', es) => some (c', s', es)

end ThreadCache

/-! ## 2. One cache -/

namespace OneCache

/-- `place` is no part of the program. It says on which list of this cache a block is; a block that
    is on none is in use, or someone else's. -/
structure State where
  mem : Memory := {}
  cache : ThreadCache := {}
  place : Nat → Option Nat := fun _ => none

inductive Event where
  /-- `allocate` found a block on a list that was counted as empty. -/
  | undercounted (index : Nat)
deriving DecidableEq, Repr

inductive Label where
  /-- `start` is what `fetchRange` returns, should it be called. -/
  | allocate (size start rounds : Nat)
  | deallocate (ptr size : Nat)
  /-- With the head of the thread's list; `current` is the head of the central one. -/
  | returnToCentralCache (size current rounds : Nat)
  /-- Anybody else writes. -/
  | outside (a v : Nat)
deriving DecidableEq, Repr

/-- The blocks are on the list now, or on none. -/
def placed (place : Nat → Option Nat) (blocks : List Nat) (k : Option Nat) (a : Nat) : Option Nat :=
  if blocks.contains a then k else place a

/-- What `fetchRange` may return: a block and a chain of others, none of them on a list here. -/
def MayFetch (s : State) (start : Nat) (blocks : List Nat) : Prop :=
  s.place start = none ∧ ∀ a ∈ blocks, s.place a = none

instance (s : State) (start : Nat) (blocks : List Nat) : Decidable (MayFetch s start blocks) :=
  inferInstanceAs (Decidable (_ ∧ _))

def fetchFromCentralCache (s : State) (index start rounds : Nat) : Option (State × List Event) :=
  if start = 0 then some (s, [])
  else
    let head := s.mem.word start
    match walk 0 s.mem.word rounds head with
    | none => none
    | some blocks =>
        if MayFetch s start blocks then
          some ({ s with
            cache := s.cache.set index head (s.cache.freeListSize index + blocks.length)
            place := placed s.place blocks (some index) }, [])
        else none

def allocate (s : State) (size start rounds : Nat) : Option (State × List Event) :=
  let size' := if size = 0 then ALIGNMENT else size
  if MAX_BYTES < size' then some (s, [])
  else
    let index := getIndex size'
    let ptr := s.cache.freeList index
    if ptr ≠ 0 then
      let n := s.cache.freeListSize index
      some ({ s with
        cache := s.cache.set index (s.mem.word ptr) (if 0 < n then n - 1 else n)
        place := Function.update s.place ptr none }, if 0 < n then [] else [.undercounted index])
    else fetchFromCentralCache s index start rounds

/-- Of a block that is not free already. -/
def deallocate (s : State) (ptr size : Nat) : Option (State × List Event) :=
  if MAX_BYTES < size then some (s, [])
  else if ptr = 0 ∨ s.place ptr ≠ none then none
  else
    let index := getIndex size
    some ({ mem := s.mem.store ptr (s.cache.freeList index)
            cache := s.cache.set index ptr (s.cache.freeListSize index + 1)
            place := Function.update s.place ptr (some index) }, [])

/-- A delayed return, if there is one, is left to `outside`. -/
def returnToCentralCache (s : State) (size current rounds : Nat) : Option (State × List Event) :=
  if MAX_BYTES < size then none
  else
    let index := getIndex size
    let start := s.cache.freeList index
    match s.cache.split s.mem start size rounds with
    | none => none
    | some (c, m, none) => some ({ s with cache := c, mem := m }, [])
    | some (c, m, some (nextNode, bytes)) =>
        let blocks := (walk 0 s.mem.word rounds start).getD []
        some ({ mem := (linkReturned { centralFreeList := fun _ => current } m nextNode bytes index).2
                cache := c
                place := placed s.place (blocks.drop (keepNum blocks.length)) none }, [])

def step (s : State) : Label → Option (State × List Event)
  | .allocate size start rounds => allocate s size start rounds
  | .deallocate ptr size => deallocate s ptr size
  | .returnToCentralCache size current rounds => returnToCentralCache s size current rounds
  | .outside a v => if s.place a = none then some ({ s with mem := s.mem.store a v }, []) else none

end OneCache

end Pool
end EpollChat
