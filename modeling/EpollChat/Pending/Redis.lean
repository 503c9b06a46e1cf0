import EpollChat.Text
import Mathlib.Data.List.Sort
import Mathlib.Logic.Function.Basic

/-!
# The pending tables in Redis

For every user there are a hash of payloads, a sorted set of due times and a hash of
attempt counters, each under its own key; and there is the set `chat:pending_users`. A
command, or a Lua script, is one function on that state. Keys never expire here.

Field names and members are strings, as they are in Redis: the server writes the decimal
of a message id and reads back whatever it finds.
-/

namespace EpollChat

/-! ## 1. Sorted sets -/

/-- `memcmp` order of two members with equal scores. -/
def memberLe : Bytes → Bytes → Bool
  | [], _ => true
  | _ :: _, [] => false
  | a :: as, b :: bs => a < b || (a == b && memberLe as bs)

/-- The order of a sorted set: by score, then by member. -/
def entryLe (a b : Int × Bytes) : Prop := a.1 < b.1 ∨ (a.1 = b.1 ∧ memberLe a.2 b.2 = true)

instance : DecidableRel entryLe := fun a b =>
  inferInstanceAs (Decidable (a.1 < b.1 ∨ (a.1 = b.1 ∧ memberLe a.2 b.2 = true)))

abbrev SortedSet := List (Int × Bytes)

namespace SortedSet

def zrem (z : SortedSet) (member : Bytes) : SortedSet := z.filter fun e => e.2 ≠ member

def zadd (z : SortedSet) (score : Int) (member : Bytes) : SortedSet :=
  (zrem z member).orderedInsert entryLe (score, member)

/-- `ZRANGE key 0 (limit - 1)`. -/
def zrange (z : SortedSet) (limit : Nat) : List Bytes := (z.take limit).map (·.2)

/-- `ZRANGEBYSCORE key -inf now LIMIT 0 limit`. -/
def zrangebyscore (z : SortedSet) (now : Int) (limit : Nat) : List Bytes :=
  ((z.filter fun e => e.1 ≤ now).take limit).map (·.2)

def members (z : SortedSet) : List Bytes := z.map (·.2)

end SortedSet

/-! ## 2. The tables -/

structure PendingTables where
  payload : Bytes → Option Bytes := fun _ => none
  schedule : SortedSet := []
  attempts : Bytes → Option Int := fun _ => none

structure Redis where
  tables : Bytes → PendingTables := fun _ => {}
  pendingUsers : List Bytes := []

namespace Redis

/-- Change one user's tables. -/
def modify (r : Redis) (user : Bytes) (f : PendingTables → PendingTables) : Redis :=
  { r with tables := Function.update r.tables user (f (r.tables user)) }

/-- The script of `storePendingMessage`. -/
def storeScript (r : Redis) (user id json : Bytes) (due : Int) : Redis :=
  let r' := r.modify user fun t =>
    { payload := Function.update t.payload id (some json)
      schedule := t.schedule.zadd due id
      attempts := Function.update t.attempts id (some 0) }
  { r' with pendingUsers := if user ∈ r.pendingUsers then r.pendingUsers else user :: r.pendingUsers }

/-- One round of the script of `ackPendingMessage`. -/
def ackOne (t : PendingTables) (id : Bytes) : PendingTables :=
  { payload := Function.update t.payload id none
    schedule := t.schedule.zrem id
    attempts := Function.update t.attempts id none }

def ackScript (r : Redis) (user : Bytes) (ids : List Bytes) : Redis :=
  r.modify user fun t => ids.foldl ackOne t

def zremSchedule (r : Redis) (user id : Bytes) : Redis :=
  r.modify user fun t => { t with schedule := t.schedule.zrem id }

def hsetAttempt (r : Redis) (user id : Bytes) (attempt : Int) : Redis :=
  r.modify user fun t => { t with attempts := Function.update t.attempts id (some attempt) }

def zaddSchedule (r : Redis) (user id : Bytes) (due : Int) : Redis :=
  r.modify user fun t => { t with schedule := t.schedule.zadd due id }

end Redis

end EpollChat
