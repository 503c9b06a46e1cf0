import Mathlib.Algebra.Group.Nat.Defs
import Mathlib.Data.List.Basic
import Mathlib.Logic.Function.Basic

/-!
# Size classes, mapped memory and the page cache

Addresses are byte addresses. Memory is a function from the address of an 8-byte word to its
value: the pool itself only ever loads and stores the first word of a block, and blocks are
8-aligned.

`mmap` is the kernel's, so its answer is part of the call. The regions it has given out are
kept, and an answer that is not page-aligned or overlaps one of them is no answer. A failed
`mmap` is `none`; the null pointer is 0.

The `Span` records of the page cache are objects linked by pointers, embedded as such: a
record's number is its pointer. Two maps lead to them, by page count and by address.
-/

namespace EpollChat
namespace Pool

def ALIGNMENT : Nat := 8

def MAX_BYTES : Nat := 256 * 1024

def FREE_LIST_SIZE : Nat := MAX_BYTES / ALIGNMENT

def PAGE_SIZE : Nat := 4096

/-! ## 1. Size classes -/

def getIndex (bytes : Nat) : Nat := (max bytes ALIGNMENT + ALIGNMENT - 1) / ALIGNMENT - 1

/-- The bytes of a block of a class. -/
def blockSize (index : Nat) : Nat := (index + 1) * ALIGNMENT

/-! ## 2. Mapped memory -/

structure Range where
  start : Nat
  bytes : Nat
deriving DecidableEq, Repr

def Range.Apart (r r' : Range) : Prop :=
  r.start + r.bytes ≤ r'.start ∨ r'.start + r'.bytes ≤ r.start

instance (r r' : Range) : Decidable (r.Apart r') := inferInstanceAs (Decidable (_ ∨ _))

structure Memory where
  word : Nat → Nat := fun _ => 0
  /-- What `mmap` has given out. -/
  regions : List Range := []

namespace Memory

def store (m : Memory) (a : Nat) (v : Nat) : Memory :=
  { m with word := Function.update m.word a v }

/-- What the kernel may answer to an `mmap`. -/
def Fresh (m : Memory) (r : Range) : Prop :=
  0 < r.start ∧ r.start % PAGE_SIZE = 0 ∧ ∀ r' ∈ m.regions, r.Apart r'

instance (m : Memory) (r : Range) : Decidable (m.Fresh r) :=
  inferInstanceAs (Decidable (_ ∧ _ ∧ _))

/-- The size `systemAlloc` asks for, a `size_t`. -/
def mmapSize (numPages : Nat) : Nat := numPages * PAGE_SIZE % 2 ^ 64

/-- `PageCache::systemAlloc`. There is no mapping of no bytes. -/
def systemAlloc (m : Memory) (numPages : Nat) (answer : Option Nat) : Option (Memory × Nat) :=
  let size := mmapSize numPages
  match answer with
  | none => some (m, 0)
  | some a =>
      if 0 < size ∧ m.Fresh ⟨a, size⟩ then
        some ({ word := fun x => if a ≤ x ∧ x < a + size then 0 else m.word x
                regions := ⟨a, size⟩ :: m.regions }, a)
      else none

end Memory

/-! ## 3. The page cache -/

structure Span where
  pageAddr : Nat := 0
  numPages : Nat := 0
  next : Nat := 0
deriving DecidableEq, Repr

structure PageCache where
  spans : Nat → Span := fun _ => {}
  /-- The next record `new Span` gives. -/
  nextSpan : Nat := 1
  /-- By page count, in its order; a value may be null. -/
  freeSpans : List (Nat × Nat) := []
  spanMap : Nat → Option Nat := fun _ => none

/-- `operator[]` of a `std::map` of pointers: a missing key reads as null. -/
def mapGet (m : List (Nat × Nat)) (key : Nat) : Nat := (m.lookup key).getD 0

def mapSet : List (Nat × Nat) → Nat → Nat → List (Nat × Nat)
  | [], key, value => [(key, value)]
  | e :: m, key, value =>
      if key < e.1 then (key, value) :: e :: m
      else if key = e.1 then (key, value) :: m
      else e :: mapSet m key value

def mapErase (m : List (Nat × Nat)) (key : Nat) : List (Nat × Nat) := m.filter fun e => e.1 ≠ key

namespace PageCache

def setSpan (p : PageCache) (span : Nat) (v : Span) : PageCache :=
  { p with spans := Function.update p.spans span v }

/-- `freeSpans_.lower_bound(numPages)`. -/
def lowerBound (p : PageCache) (numPages : Nat) : Option (Nat × Nat) :=
  p.freeSpans.find? fun e => numPages ≤ e.1

/-- The part of `allocateSpan` that serves a request from a free span. A null entry is
    dereferenced: no result. -/
def takeSpan (p : PageCache) (numPages key span : Nat) : Option (PageCache × Nat) :=
  if span = 0 then none
  else
    let s := p.spans span
    let free := if s.next ≠ 0 then mapSet p.freeSpans key s.next else mapErase p.freeSpans key
    let p' :=
      if numPages < s.numPages then
        let rest : Span :=
          { pageAddr := s.pageAddr + numPages * PAGE_SIZE
            numPages := s.numPages - numPages
            next := mapGet free (s.numPages - numPages) }
        ({ p with
            freeSpans := mapSet free rest.numPages p.nextSpan
            nextSpan := p.nextSpan + 1 }.setSpan p.nextSpan rest).setSpan span
          { s with numPages := numPages }
      else { p with freeSpans := free }
    some ({ p' with spanMap := Function.update p'.spanMap s.pageAddr (some span) }, s.pageAddr)

def allocateSpan (p : PageCache) (m : Memory) (numPages : Nat) (answer : Option Nat) :
    Option (PageCache × Memory × Nat) :=
  match p.lowerBound numPages with
  | some (key, span) => (p.takeSpan numPages key span).map fun (p', a) => (p', m, a)
  | none =>
      match m.systemAlloc numPages answer with
      | none => none
      | some (m', a) =>
          if a = 0 then some (p, m', 0)
          else
            some ({ p with
              spans := Function.update p.spans p.nextSpan { pageAddr := a, numPages := numPages }
              nextSpan := p.nextSpan + 1
              spanMap := Function.update p.spanMap a (some p.nextSpan) }, m', a)

/-- The loop of `deallocateSpan` that looks for `target` behind `prev` and unlinks it. -/
def unlinkBehind (p : PageCache) (target : Nat) : Nat → Nat → Option (PageCache × Bool)
  | rounds, prev =>
      let next := (p.spans prev).next
      if next = 0 then some (p, false)
      else if next = target then
        some (p.setSpan prev { p.spans prev with next := (p.spans target).next }, true)
      else
        match rounds with
        | 0 => none
        | rounds + 1 => unlinkBehind p target rounds next

/-- Take `nextSpan` off its free list, if it is on it. -/
def unlinkFree (p : PageCache) (nextSpan rounds : Nat) : Option (PageCache × Bool) :=
  let key := (p.spans nextSpan).numPages
  let head := mapGet p.freeSpans key
  -- `operator[]` has put the key there
  let p' := { p with freeSpans := mapSet p.freeSpans key head }
  if head = nextSpan then
    some ({ p' with freeSpans := mapSet p'.freeSpans key (p.spans nextSpan).next }, true)
  else if head ≠ 0 then unlinkBehind p' nextSpan rounds head
  else some (p', false)

/-- `deallocateSpan`; `rounds` bounds the walk through a free list. -/
def deallocateSpan (p : PageCache) (ptr : Nat) (numPages rounds : Nat) : Option PageCache :=
  match p.spanMap ptr with
  | none => some p
  | some span =>
      let nextAddr := ptr + numPages * PAGE_SIZE
      let merged :=
        match p.spanMap nextAddr with
        | none => some p
        | some nextSpan =>
            match p.unlinkFree nextSpan rounds with
            | none => none
            | some (p', false) => some p'
            | some (p', true) =>
                some { p'.setSpan span
                    { p'.spans span with
                      numPages := (p'.spans span).numPages + (p'.spans nextSpan).numPages } with
                  spanMap := Function.update p'.spanMap nextAddr none }
      match merged with
      | none => none
      | some p' =>
          let key := (p'.spans span).numPages
          some { p'.setSpan span { p'.spans span with next := mapGet p'.freeSpans key } with
            freeSpans := mapSet p'.freeSpans key span }

end PageCache

end Pool
end EpollChat
