import EpollChat.Lib.Machine
import EpollChat.Pool.CentralCache

/-!
# The central cache, call by call

Any sequence of `fetchRange` and `returnRange` calls, one at a time. What a call does not
decide itself is in its label: what `mmap` answers, what the clock reads (`now` when the
trigger is checked, `later` when the time of the return is noted), in which order the
`unordered_map` is traversed, and how many rounds the loops over linked lists take.

A block is held from the `fetchRange` that returns it to the `returnRange` that takes it back;
in between its holder writes what it likes into it, and links it to others before it returns
them. `carvings` records which span each tracker was published for.
-/

namespace EpollChat
namespace Pool
namespace Calls

open Lib

structure Carving where
  tracker : Nat
  index : Nat
  start : Nat
deriving DecidableEq, Repr

structure State where
  mem : Memory := {}
  pages : PageCache := {}
  central : CentralCache := {}
  /-- The blocks held, with their classes. -/
  held : List (Nat × Nat) := []
  carvings : List Carving := []

inductive Event where
  /-- A delayed return found these blocks on the list. -/
  | scan (index : Nat) (blocks : List Nat)
  /-- `updateSpanFreeCount` called `deallocateSpan` for the span of a tracker. -/
  | gaveBack (tracker : Nat)
deriving DecidableEq, Repr

/-- The calls, and what their holders write. -/
inductive Label where
  | fetchRange (index : Nat) (answer : Option Nat)
  | returnRange (start size index : Nat) (now later : Int) (order : List Nat) (rounds : Nat)
  | write (index block a v : Nat)
deriving DecidableEq, Repr

/-! ## 1. `fetchRange` -/

/-- The tracker a carving is published under, if there is room for it. -/
def newCarving (c : CentralCache) (index start : Nat) : List Carving :=
  if 1 < blockNum (blockSize index) ∧ c.spanCount < TRACKERS then [⟨c.spanCount, index, start⟩] else []

def fetchRange (s : State) (index : Nat) (answer : Option Nat) : Option State :=
  if FREE_LIST_SIZE ≤ index then some s
  else
    let head := s.central.centralFreeList index
    if head ≠ 0 then
      let (c, m) := takeHead s.central s.mem index head
      some { s with central := c, mem := m, held := (index, head) :: s.held }
    else
      match s.pages.allocateSpan s.mem (spanPages (blockSize index)) answer with
      | none => none
      | some (p, m, start) =>
          if start = 0 then some { s with pages := p, mem := m }
          else
            let (c, m') := carve s.central m index start
            some
              { mem := m'
                pages := p
                central := c
                held := (index, start) :: s.held
                carvings := newCarving s.central index start ++ s.carvings }

/-! ## 2. `returnRange` -/

/-- The blocks the linking loop goes through. -/
def rangeBlocks (m : Memory) : Nat → Nat → List Nat
  | 0, a => [a]
  | n + 1, a => if m.word a = 0 then [a] else a :: rangeBlocks m n (m.word a)

/-- An order in which the entries of `spanFreeCounts` may be traversed. -/
def IsOrder (c : CentralCache) (blocks order : List Nat) : Prop :=
  order.Nodup ∧ (∀ t ∈ order, 0 < spanFreeCount c blocks t) ∧
    ∀ a ∈ blocks, ∀ t ∈ c.getSpanTracker a, t ∈ order

instance (c : CentralCache) (blocks order : List Nat) : Decidable (IsOrder c blocks order) :=
  inferInstanceAs (Decidable (_ ∧ _ ∧ _))

/-- What a delayed return works on. -/
structure Cache where
  mem : Memory
  pages : PageCache
  central : CentralCache

def updateSpanFreeCount (s : Cache) (tracker newFreeBlocks index rounds : Nat) :
    Option (Cache × List Event) :=
  let t := s.central.spanTrackers tracker
  let newFreeCount := t.freeCount + UInt64.ofNat newFreeBlocks
  let c := s.central.setTracker tracker { t with freeCount := newFreeCount }
  if newFreeCount = UInt64.ofNat t.blockCount then
    match unlinkSpan t rounds s.mem (c.centralFreeList index) 0 (c.centralFreeList index) with
    | none => none
    | some (m, newHead) =>
        match s.pages.deallocateSpan t.spanAddr t.numPages rounds with
        | none => none
        | some p =>
            some ({ mem := m, pages := p, central := c.setHead index newHead }, [.gaveBack tracker])
  else some ({ s with central := c }, [])

/-- The loop over `spanFreeCounts`. -/
def updateAll (count : Nat → Nat) (index rounds : Nat) : List Nat → Cache → Option (Cache × List Event)
  | [], s => some (s, [])
  | t :: order, s =>
      match updateSpanFreeCount s t (count t) index rounds with
      | none => none
      | some (s', es) =>
          match updateAll count index rounds order s' with
          | none => none
          | some (s'', es') => some (s'', es ++ es')

def performDelayedReturn (s : Cache) (index : Nat) (later : Int) (order : List Nat) (rounds : Nat) :
    Option (Cache × List Event) :=
  let c :=
    { s.central with
      delayCounts := Function.update s.central.delayCounts index 0
      lastReturnTimes := Function.update s.central.lastReturnTimes index later }
  match walk 0 s.mem.word rounds (c.centralFreeList index) with
  | none => none
  | some blocks =>
      if IsOrder c blocks order then
        match updateAll (spanFreeCount c blocks) index rounds order { s with central := c } with
        | none => none
        | some (s', es) => some (s', .scan index blocks :: es)
      else none

/-- The cache after the returned blocks have been linked in and counted. -/
def linked (s : State) (start size index : Nat) : Cache :=
  let (c, m) := linkReturned s.central s.mem start size index
  { mem := m
    pages := s.pages
    central := { c with delayCounts := Function.update c.delayCounts index (c.delayCounts index + 1) } }

/-- The blocks a call returns. -/
def returned (s : State) (start size index : Nat) : List Nat :=
  rangeBlocks s.mem (size / blockSize index - 1) start

/-- The trigger, checked on the cache `linked` leaves. -/
def triggered (c : CentralCache) (index : Nat) (now : Int) : Bool :=
  shouldPerformDelayedReturn c index (c.delayCounts index) now

def returnRange (s : State) (start size index : Nat) (now later : Int) (order : List Nat)
    (rounds : Nat) : Option (State × List Event) :=
  if start = 0 ∨ FREE_LIST_SIZE ≤ index then some (s, [])
  else
    let l := linked s start size index
    let held := s.held.filter fun e => ¬ (e.1 = index ∧ e.2 ∈ returned s start size index)
    if triggered l.central index now then
      match performDelayedReturn l index later order rounds with
      | none => none
      | some (l', es) => some ({ s with mem := l'.mem, pages := l'.pages, central := l'.central, held := held }, es)
    else some ({ s with mem := l.mem, pages := l.pages, central := l.central, held := held }, [])

/-! ## 3. Steps -/

/-- Every block returned was fetched and is not yet returned. -/
def MayReturn (s : State) (start size index : Nat) : Prop :=
  (returned s start size index).Nodup ∧ ∀ a ∈ returned s start size index, (index, a) ∈ s.held

instance (s : State) (start size index : Nat) : Decidable (MayReturn s start size index) :=
  inferInstanceAs (Decidable (_ ∧ _))

def step (s : State) : Label → Option (State × List Event)
  | .fetchRange index answer => (fetchRange s index answer).map fun s' => (s', [])
  | .returnRange start size index now later order rounds =>
      if start = 0 ∨ FREE_LIST_SIZE ≤ index ∨ MayReturn s start size index then
        returnRange s start size index now later order rounds
      else none
  | .write index block a v =>
      if (index, block) ∈ s.held ∧ block ≤ a ∧ a < block + blockSize index then
        some ({ s with mem := s.mem.store a v }, [])
      else none

end Calls
end Pool
end EpollChat
