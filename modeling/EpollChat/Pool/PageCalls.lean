import EpollChat.Lib.Machine
import EpollChat.Pool.PageCache

/-!
# The page cache, call by call

Any sequence of `allocateSpan` and `deallocateSpan` calls, each under the mutex. A span goes
back with the page count it was asked for, and once; `live` keeps those that have not gone back
yet. What `mmap` answers is part of the label, and so is how many rounds the walk through a
free list takes.

A call that dereferences a null pointer has no result, and the run ends before it.
-/

namespace EpollChat
namespace Pool
namespace PageCalls

structure State where
  pages : PageCache := {}
  mem : Memory := {}
  /-- Addresses and page counts. -/
  live : List (Nat × Nat) := []

inductive Event where
  /-- What `allocateSpan` returned. -/
  | returned (ptr : Nat)
deriving DecidableEq, Repr

inductive Label where
  | allocateSpan (numPages : Nat) (answer : Option Nat)
  | deallocateSpan (ptr numPages rounds : Nat)
deriving DecidableEq, Repr

def step (s : State) : Label → Option (State × List Event)
  | .allocateSpan numPages answer =>
      if numPages = 0 then none
      else
        match s.pages.allocateSpan s.mem numPages answer with
        | none => none
        | some (p, m, a) =>
            some ({ pages := p
                    mem := m
                    live := if a = 0 then s.live else (a, numPages) :: s.live }, [.returned a])
  | .deallocateSpan ptr numPages rounds =>
      if s.live.contains (ptr, numPages) then
        match s.pages.deallocateSpan ptr numPages rounds with
        | none => none
        | some p => some ({ s with pages := p, live := s.live.erase (ptr, numPages) }, [])
      else none

end PageCalls
end Pool
end EpollChat
