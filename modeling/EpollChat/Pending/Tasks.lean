import EpollChat.Lib.Machine
import EpollChat.Pending.Redis
import EpollChat.Wire.Chat

/-!
# The tasks that touch the pending tables

Any number of threads run private sends, login dispatches, retry scans and
acknowledgements. A step is one Redis command or script, one `sendPacket`, or the local
work between two of them; a thread's program counter holds the local variables that
survive it.

Two habits of the source matter and are embedded as they are. The scripts are sent with
explicit lengths, but every other command goes through hiredis' `%s` and every reply
through `reply->str`: both stop at the first NUL (`cStr`). And the id under which a
dispatched message is counted and rescheduled is not the one it was fetched by, but what
`extractJsonValue` finds in its text.
-/

namespace EpollChat
namespace Pending

def kRetryDelayMs : Int := 3000

def kRetryBatchPerUser : Nat := 50

def kRetryMaxAttempts : Int := 5

/-! ## 1. States -/

/-- Where a `dispatchDueMessagesForUser` call is. -/
inductive Phase where
  /-- About to read the ids. -/
  | range
  /-- `fetchPendingMessages` is about to `HGET` the first of `ids`. -/
  | fetch (ids msgs : List Bytes)
  /-- It found no payload under `id` and is about to `ZREM` it. -/
  | unschedule (id : Bytes) (ids msgs : List Bytes)
  /-- The dispatch loop is about to look at the first of `msgs`. -/
  | serve (msgs : List Bytes)
  | send (msg id : Bytes) (attempt : Int) (msgs : List Bytes)
  | count (id : Bytes) (nextAttempt nextDue : Int) (msgs : List Bytes)
  | reschedule (id : Bytes) (nextDue : Int) (msgs : List Bytes)
deriving DecidableEq, Repr

/-- A dispatch in progress. `call` numbers the calls, so that a trace can tell them apart. -/
structure Dispatch where
  call : Nat
  user : Bytes
  includeAll : Bool
  phase : Phase
deriving DecidableEq, Repr

inductive Pc where
  | idle
  /-- The private-send task, before `storePendingMessage`, before its ACK, and before its
      send to the target. -/
  | store (target : Bytes) (id : UInt64) (json : Bytes)
  | ackSender (target : Bytes) (id : UInt64) (json : Bytes)
  | sendTarget (target : Bytes) (id : UInt64) (json : Bytes)
  /-- `retryLoop` between two users. -/
  | scan (users : List Bytes)
  /-- A dispatch, and the users `retryLoop` goes on with afterwards. -/
  | dispatch (d : Dispatch) (users : List Bytes)
deriving DecidableEq, Repr

structure State where
  redis : Redis := {}
  threads : Nat → Pc := fun _ => .idle
  nextCall : Nat := 0
  /-- The ids stored so far. -/
  storedIds : List UInt64 := []

inductive Event where
  | stored (user : Bytes) (id : UInt64) (json : Bytes)
  /-- The sender has been sent the `received` ACK. -/
  | received (user : Bytes) (id : UInt64) (json : Bytes)
  | sentDirect (user : Bytes) (id : UInt64) (json : Bytes)
  | acked (user : Bytes) (ids : List UInt64)
  | hget (call : Nat) (user id : Bytes)
  /-- A dispatch passed `msg` to `sendPacket`. -/
  | sent (call : Nat) (user id msg : Bytes)
deriving DecidableEq, Repr

/-- `privateSend`, `loginDispatch`, `retryScan` and `ackPending` start a task on an idle
    thread; `move` takes the next step of a busy one. `now` is the clock, `flag` the
    answer of `isCurrentSessionValid` or of `getOnlineCtx`. -/
inductive Label where
  | privateSend (tid : Nat) (sender target content ts : Bytes) (id : UInt64)
  | loginDispatch (tid : Nat) (user : Bytes)
  | retryScan (tid : Nat)
  | ackPending (tid : Nat) (user : Bytes) (ids : List UInt64)
  | move (tid : Nat) (now : Int) (flag : Bool)
deriving DecidableEq, Repr

/-! ## 2. Private sends -/

def setThread (s : State) (tid : Nat) (pc : Pc) : State :=
  { s with threads := Function.update s.threads tid pc }

/-- `effectiveId` of `storePendingMessage`; 0 makes it return false. -/
def effectiveId (id : UInt64) (json : Bytes) : Nat :=
  if id = 0 then (stoull (extractJsonValue json (ascii "msg_id"))).getD 0 else id.toNat

/-- `storePendingMessage`. The id generator never gives an id out twice. -/
def store (s : State) (tid : Nat) (target : Bytes) (id : UInt64) (json : Bytes) (now : Int) :
    Option (State × List Event) :=
  if target = [] ∨ json = [] ∨ effectiveId id json = 0 then some (setThread s tid .idle, [])
  else if id ∈ s.storedIds then none
  else
    some (setThread
      { s with
        redis := s.redis.storeScript target (toDecimal (effectiveId id json)) json
          (now + kRetryDelayMs)
        storedIds := id :: s.storedIds } tid (.ackSender target id json),
      [.stored target id json])

/-! ## 3. Dispatches -/

/-- The command that reads the ids. -/
def rangeIds (t : PendingTables) (includeAll : Bool) (now : Int) : List Bytes :=
  if includeAll then t.schedule.zrange kRetryBatchPerUser
  else t.schedule.zrangebyscore now kRetryBatchPerUser

/-- What a step of a dispatch does: the phase it goes to (`none` when the call returns),
    the tables, and an event. -/
def dispatchStep (r : Redis) (d : Dispatch) (now : Int) : Option Phase × Redis × List Event :=
  let key := cStr d.user
  let t := r.tables key
  match d.phase with
  | .range =>
      if d.user = [] then (none, r, [])
      else (some (.fetch ((rangeIds t d.includeAll now).map cStr) []), r, [])
  | .fetch [] msgs => (some (.serve msgs), r, [])
  | .fetch (id :: ids) msgs =>
      match t.payload id with
      | some json => (some (.fetch ids (msgs ++ [cStr json])), r, [.hget d.call key id])
      | none => (some (.unschedule id ids msgs), r, [.hget d.call key id])
  | .unschedule id ids msgs => (some (.fetch ids msgs), r.zremSchedule key id, [])
  | .serve [] => (none, r, [])
  | .serve (msg :: msgs) =>
      let id := extractJsonValue msg (ascii "msg_id")
      if id = [] then (some (.serve msgs), r, [])
      else
        let attempt := (t.attempts id).getD 0
        if kRetryMaxAttempts ≤ attempt ∧ d.includeAll = false then (some (.serve msgs), r, [])
        else (some (.send msg id attempt msgs), r, [])
  | .send msg id attempt msgs =>
      (some (.count id (if d.includeAll then attempt else attempt + 1) (now + kRetryDelayMs) msgs), r,
        [.sent d.call key id msg])
  | .count id nextAttempt nextDue msgs =>
      (some (.reschedule id nextDue msgs), r.hsetAttempt key id nextAttempt, [])
  | .reschedule id nextDue msgs => (some (.serve msgs), r.zaddSchedule key id nextDue, [])

/-- The rest of a call during which no other thread runs; `clock k` is the time at its `k`-th
    step from here on, and `none` stands for a call that has not returned after `fuel` steps. -/
def dispatchAlone : (fuel : Nat) → Redis → Dispatch → (clock : Nat → Int) → Option (Redis × List Event)
  | 0, _, _, _ => none
  | fuel + 1, r, d, clock =>
      match dispatchStep r d (clock 0) with
      | (none, r', es) => some (r', es)
      | (some phase, r', es) =>
          match dispatchAlone fuel r' { d with phase := phase } (fun k => clock (k + 1)) with
          | none => none
          | some (r'', es') => some (r'', es ++ es')

/-- A new call of `dispatchDueMessagesForUser`. -/
def startDispatch (s : State) (tid : Nat) (user : Bytes) (includeAll : Bool) (users : List Bytes) :
    State :=
  setThread { s with nextCall := s.nextCall + 1 } tid
    (.dispatch ⟨s.nextCall, user, includeAll, .range⟩ users)

/-! ## 4. Steps -/

def move (s : State) (tid : Nat) (now : Int) (flag : Bool) : Option (State × List Event) :=
  match s.threads tid with
  | .idle => none
  | .store target id json => store s tid target id json now
  | .ackSender target id json =>
      some (setThread s tid (.sendTarget target id json),
        if flag then [.received target id json] else [])
  | .sendTarget target id json =>
      some (setThread s tid .idle, if flag then [.sentDirect target id json] else [])
  | .scan [] => some (setThread s tid .idle, [])
  | .scan (user :: users) =>
      if flag then some (startDispatch s tid user false users, [])
      else some (setThread s tid (.scan users), [])
  | .dispatch d users =>
      match dispatchStep s.redis d now with
      | (some phase, r, es) =>
          some (setThread { s with redis := r } tid (.dispatch { d with phase := phase } users), es)
      | (none, r, es) => some (setThread { s with redis := r } tid (.scan users), es)

/-- The ids `ackPendingMessage` passes to its script. -/
def ackedIds (ids : List UInt64) : List Bytes :=
  (ids.filter (· ≠ 0)).map fun id => toDecimal id.toNat

def step (s : State) : Label → Option (State × List Event)
  | .privateSend tid sender target content ts id =>
      match s.threads tid with
      | .idle =>
          if target = ascii "broadcast" then none
          else
            some (setThread s tid
              (.store target id (buildEnrichedChatBodyWithMsgId id.toNat sender target content ts)), [])
      | _ => none
  | .loginDispatch tid user =>
      match s.threads tid with
      | .idle => some (startDispatch s tid user true [], [])
      | _ => none
  | .retryScan tid =>
      match s.threads tid with
      | .idle => some (setThread s tid (.scan (s.redis.pendingUsers.map cStr)), [])
      | _ => none
  | .ackPending tid user ids =>
      match s.threads tid with
      | .idle =>
          if user = [] ∨ ackedIds ids = [] then some (s, [])
          else some ({ s with redis := s.redis.ackScript user (ackedIds ids) }, [.acked user ids])
      | _ => none
  | .move tid now flag => move s tid now flag

end Pending
end EpollChat
