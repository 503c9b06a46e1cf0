import Mathlib.Data.List.Basic

/-!
# Message ids: `SnowflakeIdGenerator`

An id is a number of milliseconds since `kEpochMs`, the id of the generator and a counter
within the millisecond, packed into one `uint64_t`. `nextId` runs under the generator's
mutex, so calls follow one another; what it does not decide for itself is the clock. A call
is given the list of readings it will get: the first is `nextId`'s own, and the others are
what `waitNextMs` polls. `none` is a call that is still polling when they are used up.
-/

namespace EpollChat

structure SnowflakeIdGenerator where
  m_workerId : UInt64 := 0
  m_lastTs : UInt64 := 0
  m_sequence : UInt64 := 0
deriving DecidableEq, Repr

namespace SnowflakeIdGenerator

/-- 2024-01-01 UTC. -/
def kEpochMs : UInt64 := 1704067200000

def kWorkerBits : UInt64 := 10

def kSequenceBits : UInt64 := 12

def kMaxWorkerId : UInt64 := (1 <<< kWorkerBits) - 1

def kMaxSequence : UInt64 := (1 <<< kSequenceBits) - 1

def kWorkerShift : UInt64 := kSequenceBits

def kTimestampShift : UInt64 := kSequenceBits + kWorkerBits

/-- The constructor, on a thread whose id hashes to `hash`. -/
def create (hash : UInt64) : SnowflakeIdGenerator := { m_workerId := hash &&& kMaxWorkerId }

/-- `while (ts <= lastTs) ts = currentMs();` -/
def waitNextMs (lastTs : UInt64) : List UInt64 → Option UInt64
  | [] => none
  | ts :: readings => if ts ≤ lastTs then waitNextMs lastTs readings else some ts

/-- An id, and the three numbers it was made of. -/
structure Issued where
  id : UInt64
  delta : UInt64
  workerId : UInt64
  sequence : UInt64
deriving DecidableEq, Repr

/-- The last lines of `nextId`, where the members have their new values. -/
def issue (g : SnowflakeIdGenerator) : Issued :=
  let delta := if kEpochMs < g.m_lastTs then g.m_lastTs - kEpochMs else 0
  { id := (delta <<< kTimestampShift) ||| (g.m_workerId <<< kWorkerShift) ||| g.m_sequence
    delta := delta
    workerId := g.m_workerId
    sequence := g.m_sequence }

/-- The time and the counter of the next id. -/
def advance (g : SnowflakeIdGenerator) (now : UInt64) (readings : List UInt64) :
    Option SnowflakeIdGenerator :=
  -- A clock that went back is taken to stand still.
  let ts := if now < g.m_lastTs then g.m_lastTs else now
  if ts = g.m_lastTs then
    let sequence := (g.m_sequence + 1) &&& kMaxSequence
    if sequence = 0 then
      (waitNextMs g.m_lastTs readings).map fun ts' => { g with m_sequence := sequence, m_lastTs := ts' }
    else some { g with m_sequence := sequence, m_lastTs := ts }
  else some { g with m_sequence := 0, m_lastTs := ts }

/-- `nextId`, given the clock readings of this call. -/
def nextId (g : SnowflakeIdGenerator) : List UInt64 → Option (SnowflakeIdGenerator × List Issued)
  | [] => none
  | now :: readings => (g.advance now readings).map fun g' => (g', [g'.issue])

end SnowflakeIdGenerator

end EpollChat
