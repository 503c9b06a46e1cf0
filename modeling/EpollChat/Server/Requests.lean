import EpollChat.Ids.Snowflake
import EpollChat.Lib.Agenda
import EpollChat.Server.Friends
import EpollChat.Server.History
import EpollChat.Server.Threads
import Mathlib.Tactic.DeriveFintype

/-!
# From a packet to its answer

All of `processPacket`, with what comes before it (the hand-over loop of `handleRead`) and what
comes after it (the tasks it leaves to the MySQL and the Redis threads, and the retry thread).
Every thread has an agenda (`Lib.Agenda`), a step is one access to what the threads share, and
the three task queues are part of the world.

What MySQL, Redis and the queues answer is part of the label. `sendPacket` is an event here; what
becomes of the packet is the business of `Conn.Output`. The bodies are as `decodeProtoToJson`
returns them. A connection comes in one step and goes in one, as in `Server.Sessions`; what can
happen in between is shown in `Server.Threads`.
-/

namespace EpollChat
namespace Requests

open Lib
open Server (MSG_TYPE_ACK serverBusyBody loginSuccessBody loginFailBody systemBusyBody)

/-! ## 1. Texts -/

/-- `ackBody`. -/
def ackBody (msgId : Nat) : Bytes :=
  ascii "\x7b\"result\":\"received\",\"type\":1,\"msg_id\":\"" ++ (toDecimal msgId ++ ascii "\"\x7d")

def emptyList : Bytes := ascii "[]"

/-- The answer to a type 11 packet if `enqueueRedisTask` refuses. -/
def noFriends : Bytes := ascii "\x7b\"friends\":[]\x7d"

/-! ## 2. Tasks -/

/-- What `handleRead` leaves to the business threads. -/
structure Packet where
  ctx : Nat
  type : UInt16
  body : Bytes
deriving DecidableEq, Repr

/-- The arguments of `enqueueDbTask`. -/
inductive DbTask where
  | login (ctx expectedFd : Nat) (username password : Bytes)
  | history (ctx expectedFd : Nat) (lastTime currentUser sessionId : Bytes)
  | addFriend (ctx expectedFd : Nat) (currentUser targetFriend : Bytes)
deriving DecidableEq, Repr

/-- The arguments of `enqueueRedisTask`. -/
inductive RedisTask where
  | privateMessage (ctx expectedSenderFd : Nat) (target : Bytes) (targetCtx : Option Nat)
      (enrichedBody ackBody : Bytes)
  | ack (user : Bytes) (msgIds : List Nat)
  | invalidate (currentUser targetFriend : Bytes)
  | friendList (ctx expectedFd : Nat) (currentUser : Bytes)
deriving DecidableEq, Repr

/-! ## 3. What a thread has still to do -/

inductive Act where
  /-- One round of the hand-over loop. -/
  | deliver (p : Packet)
  | processPacket (p : Packet)
  | sendPacket (ctx : Nat) (type : UInt16) (data : Bytes)
  /-- `if (isCurrentSessionValid(ctx, expectedFd)) sendPacket(ctx, type, data);` -/
  | answer (ctx expectedFd : Nat) (type : UInt16) (data : Bytes)
  | setOnlineUser (accountID : Bytes) (ctx : Nat)
  | setAccount (ctx : Nat) (accountID : Bytes)
  /-- The type 1 branch before `nextMsgId`, before `snapshotAllClients`, before `getOnlineCtx`,
      and at its end. -/
  | number (ctx : Nat) (sender target content : Bytes)
  | snapshot (ctx : Nat) (enrichedBody ackBody : Bytes)
  | lookup (ctx : Nat) (target enrichedBody ackBody : Bytes)
  | enqueueChatLog (ctx : Nat) (sender target content : Bytes)
  | enqueueDbTask (task : DbTask)
  | enqueueRedisTask (task : RedisTask)
  | dbTask (task : DbTask)
  | redisTask (task : RedisTask)
  /-- The login task: before `checkLoginFromDatabase`, behind it, and before what follows the
      `success` packet. -/
  | checkLogin (ctx expectedFd : Nat) (username password : Bytes)
  | loginOk (ctx expectedFd : Nat) (username : Bytes)
  | sendFriends (ctx expectedFd : Nat) (username : Bytes)
  | sendPending (ctx expectedFd : Nat) (username : Bytes)
  | dispatch (user : Bytes) (ctx : Nat)
  /-- The type 9 task behind `userExistsInDB`. -/
  | addFriend (ctx expectedFd : Nat) (currentUser targetFriend : Bytes)
  /-- The private-message task behind `storePendingMessage`. -/
  | deliverPrivate (ctx expectedSenderFd : Nat) (targetCtx : Option Nat) (enrichedBody ackBody : Bytes)
  /-- `retryLoop` at one of the users. -/
  | retryUser (user : Bytes)

/-- `R` sub-reactors, and the pools as the constructor makes them. -/
inductive Thread (R : Nat) where
  | reactor (e : Fin R)
  | business (w : Fin 12)
  | db (i : Fin 20)
  | redis (i : Fin 16)
  | retry
deriving DecidableEq, Fintype

structure World where
  registry : Registry := {}
  tasks : List Packet := []
  dbTasks : List DbTask := []
  redisTasks : List RedisTask := []
  msgIdGen : SnowflakeIdGenerator

abbrev State (R : Nat) := Agenda.State World (Thread R) Act

/-! ## 4. What a step is told, and what it shows -/

/-- `queued` answers for a queue, `checked` for a statement or a script that succeeds or not,
    `text` for a result put into a packet, `failed` for one that there is not. -/
inductive Answer where
  | none
  | queued (accepted : Bool)
  | checked (ok : Bool)
  | text (data : Bytes)
  | failed
  | clock (readings : List UInt64) (ts : Bytes)
  | targets (ctxs : List Nat)
  | messages (msgs : List Bytes)

inductive Event where
  | received (p : Packet)
  /-- A queue was full; the client is told so. -/
  | refused (p : Packet)
  /-- Nothing will be sent for a packet of this type: it came from no account, or a statement
      could not be prepared. -/
  | ignored (ctx : Nat) (type : UInt16)
  | sent (ctx : Nat) (type : UInt16) (data : Bytes)
  | logged (ctx : Nat) (sender target content : Bytes)
  | broadcast (ctxs : List Nat) (enrichedBody : Bytes)
  /-- `getOnlineCtx(target)` has found `ctx`. -/
  | routed (target : Bytes) (ctx : Nat) (enrichedBody : Bytes)
  | checked (username password : Bytes) (ok : Bool)
  | loggedIn (ctx : Nat) (username : Bytes)
  | historyRead (ctx : Nat) (user sessionId : Bytes) (data : Bytes)
  | friendsRead (ctx : Nat) (user : Bytes) (data : Bytes)
  | friendAdded (ctx : Nat) (user friendName : Bytes)
  | dispatched (user : Bytes) (ctx : Nat) (msgs : List Bytes)
  | acked (user : Bytes) (msgIds : List Nat)
deriving DecidableEq, Repr

/-- A step's effect: the world, what the thread does next, and the events. -/
abbrev Outcome := World × List Act × List Event

/-! ## 5. `processPacket` -/

section

variable (md5 : Bytes → Bytes)

/-- The branch for `msgType == 9`. -/
def addFriendBranch (c : Nat) (ctx : ClientContext) (body : Bytes) : List Act × List Event :=
  let targetFriend := extractJsonValue body (ascii "friend")
  let currentUser := ctx.accountID
  if currentUser = [] then ([], [.ignored c 9])
  else if targetFriend = currentUser then ([.sendPacket c 10 Friends.cannotAddSelf], [])
  else ([.enqueueDbTask (.addFriend c ctx.fd currentUser targetFriend)], [])

/-- The branch for `msgType == 11`. -/
def friendListBranch (c : Nat) (ctx : ClientContext) : List Act × List Event :=
  if ctx.accountID = [] then ([], [.ignored c 11])
  else ([.enqueueRedisTask (.friendList c ctx.fd ctx.accountID)], [])

/-- `processPacket`, up to the next access to what is shared. -/
def processPacket (c : Nat) (ctx : ClientContext) (msgType : UInt16) (body : Bytes) :
    List Act × List Event :=
  if msgType = 3 then
    let senderID := extractJsonValue body (ascii "sender")
    (if senderID = [] then [] else [.setOnlineUser senderID c, .setAccount c senderID], [])
  else if msgType = 1 then
    let (senderID, target, content) := chatFields body
    ([.number c senderID target content], [])
  else if msgType = 2 then ([.sendPacket c 2 []], [])
  else if msgType = 4 then
    let (username, password) := loginArguments body
    ([.enqueueDbTask (.login c ctx.fd username password)], [])
  else if msgType = MSG_TYPE_ACK then
    (match ackArguments ctx.accountID body with
      | none => []
      | some (user, msgIds) => [.enqueueRedisTask (.ack user msgIds)], [])
  else if msgType = 7 then
    (match History.historyArguments md5 ctx.accountID body with
      | none => [.sendPacket c 8 emptyList]
      | some (lastTime, sessionId) =>
          [.enqueueDbTask (.history c ctx.fd lastTime ctx.accountID sessionId)], [])
  else if msgType = 9 then addFriendBranch c ctx body
  else if msgType = 11 then friendListBranch c ctx
  else ([], [])

/-- The rest of the type 1 branch, once the message has its id and its time. -/
def chatBranch (c : Nat) (senderID target content enrichedBody ackBody : Bytes) : List Act :=
  [if target = ascii "broadcast" then .snapshot c enrichedBody ackBody
    else .lookup c target enrichedBody ackBody,
    .enqueueChatLog c senderID target content]

/-! ## 6. Queues and tasks -/

/-- What is done about a packet if `enqueueDbTask` refuses its task. -/
def refusedDbTask : DbTask → List Act
  | .login c _ _ _ => [.sendPacket c 5 systemBusyBody]
  | .history c _ _ _ _ => [.sendPacket c 8 emptyList]
  | .addFriend c expectedFd _ _ => [.answer c expectedFd 10 Friends.busy]

/-- The same for `enqueueRedisTask`. -/
def refusedRedisTask : RedisTask → List Act
  | .friendList c _ _ => [.sendPacket c 12 noFriends]
  | _ => []

/-- What follows an `if (isCurrentSessionValid(ctx, expectedFd))`. -/
def guarded {α : Type} (ctx : ClientContext) (expectedFd : Nat) (l : List α) : List α :=
  if Registry.isCurrentSessionValid ctx expectedFd then l else []

/-- A task of the MySQL threads, from its first access to what is shared. -/
def runDbTask (w : World) : DbTask → Answer → Option Outcome
  | .login c expectedFd username password, _ =>
      (w.registry.contexts c).map fun ctx =>
        (w, guarded ctx expectedFd [.checkLogin c expectedFd username password], [])
  | .history c expectedFd _ currentUser sessionId, .text data =>
      some (w, [.answer c expectedFd 8 data], [.historyRead c currentUser sessionId data])
  | .history c _ _ _ _, .failed => some (w, [], [.ignored c 7])
  | .addFriend c expectedFd currentUser targetFriend, .checked exists_ =>
      some (w,
        if exists_ then [.addFriend c expectedFd currentUser targetFriend]
        else [.answer c expectedFd 10 Friends.noSuchUser], [])
  | _, _ => none

/-- A task of the Redis threads. -/
def runRedisTask (w : World) : RedisTask → Answer → Option Outcome
  | .privateMessage c expectedSenderFd _ targetCtx enrichedBody ackBody, .checked stored =>
      some (w,
        if stored then [.deliverPrivate c expectedSenderFd targetCtx enrichedBody ackBody] else [], [])
  | .ack user msgIds, _ => some (w, [], [.acked user msgIds])
  | .invalidate _ _, _ => some (w, [], [])
  | .friendList c expectedFd currentUser, .text data =>
      some (w, [.answer c expectedFd 12 data], [.friendsRead c currentUser data])
  | _, _ => none

/-! ## 7. Steps -/

/-- `sendPacket` to each of `ctxs`. -/
def sendAll (ctxs : List Nat) (type : UInt16) (data : Bytes) : List Act :=
  ctxs.map fun c => .sendPacket c type data

/-- The hand-over loop of `handleRead` at one packet. -/
def deliver (w : World) (p : Packet) (accepted : Bool) : Outcome :=
  if p.type = 2 then (w, [.sendPacket p.ctx 2 []], [.received p])
  else if accepted then ({ w with tasks := w.tasks ++ [p] }, [], [.received p])
  else (w, [.sendPacket p.ctx MSG_TYPE_ACK serverBusyBody], [.received p, .refused p])

/-- `nextMsgId`, `currentTimeStrCached` and `buildEnrichedChatBodyWithMsgId`. -/
def number (w : World) (c : Nat) (senderID target content : Bytes) (readings : List UInt64)
    (ts : Bytes) : Option Outcome :=
  match w.msgIdGen.nextId readings with
  | some (g, [e]) =>
      some ({ w with msgIdGen := g },
        chatBranch c senderID target content
          (buildEnrichedChatBodyWithMsgId e.id.toNat senderID target content ts)
          (ackBody e.id.toNat), [])
  | _ => none

/-- `getOnlineCtx(target)`, and the capture of the Redis task. -/
def lookup (w : World) (c : Nat) (ctx : ClientContext) (target enrichedBody ackBody : Bytes) : Outcome :=
  let targetCtx := w.registry.getOnlineCtx target
  (w, [.enqueueRedisTask (.privateMessage c ctx.fd target targetCtx enrichedBody ackBody)],
    match targetCtx with
    | none => []
    | some t => [.routed target t enrichedBody])

/-- The next access of a thread to what is shared. -/
def exec (w : World) (act : Act) (answer : Answer) : Option Outcome :=
  match act, answer with
  | .deliver p, .queued accepted => some (deliver w p accepted)
  | .processPacket p, _ =>
      (w.registry.contexts p.ctx).map fun ctx => (w, processPacket md5 p.ctx ctx p.type p.body)
  | .sendPacket c type data, _ => some (w, [], [.sent c type data])
  | .answer c expectedFd type data, _ =>
      (w.registry.contexts c).map fun ctx =>
        (w, guarded ctx expectedFd [.sendPacket c type data], [])
  | .setOnlineUser accountID c, _ =>
      some ({ w with registry := w.registry.setOnlineUser accountID c }, [], [])
  | .setAccount c accountID, _ =>
      some ({ w with registry :=
        w.registry.modifyCtx c fun ctx => { ctx with accountID := accountID } }, [], [])
  | .number c senderID target content, .clock readings ts =>
      number w c senderID target content readings ts
  | .snapshot c enrichedBody ackBody, .targets ctxs =>
      if ∀ t ∈ ctxs, (w.registry.contexts t).isSome then
        some (w, sendAll ctxs 1 enrichedBody ++ [.sendPacket c MSG_TYPE_ACK ackBody],
          [.broadcast ctxs enrichedBody])
      else none
  | .lookup c target enrichedBody ackBody, _ =>
      (w.registry.contexts c).map fun ctx => lookup w c ctx target enrichedBody ackBody
  | .enqueueChatLog c sender target content, _ => some (w, [], [.logged c sender target content])
  | .enqueueDbTask task, .queued accepted =>
      some (if accepted then ({ w with dbTasks := w.dbTasks ++ [task] }, [], [])
        else (w, refusedDbTask task, []))
  | .enqueueRedisTask task, .queued accepted =>
      some (if accepted then ({ w with redisTasks := w.redisTasks ++ [task] }, [], [])
        else (w, refusedRedisTask task, []))
  | .dbTask task, answer => runDbTask w task answer
  | .redisTask task, answer => runRedisTask w task answer
  | .checkLogin c expectedFd username password, .checked ok =>
      some (w,
        [if ok then .loginOk c expectedFd username else .answer c expectedFd 5 loginFailBody],
        [.checked username password ok])
  | .loginOk c expectedFd username, _ =>
      (w.registry.contexts c).map fun ctx =>
        (w, guarded ctx expectedFd [.setOnlineUser username c, .setAccount c username,
            .sendPacket c 5 loginSuccessBody, .sendFriends c expectedFd username,
            .sendPending c expectedFd username],
          guarded ctx expectedFd [.loggedIn c username])
  | .sendFriends c expectedFd username, .text data =>
      (w.registry.contexts c).map fun ctx =>
        (w, guarded ctx expectedFd [.sendPacket c 12 data],
          guarded ctx expectedFd [.friendsRead c username data])
  | .sendPending c expectedFd username, _ =>
      (w.registry.contexts c).map fun ctx =>
        (w, guarded ctx expectedFd [.dispatch username c], [])
  | .dispatch user c, .messages msgs =>
      some (w, msgs.map (.sendPacket c 1 ·), [.dispatched user c msgs])
  | .addFriend c expectedFd currentUser targetFriend, .checked added =>
      some (w,
        if added then
          [.enqueueRedisTask (.invalidate currentUser targetFriend),
            .answer c expectedFd 10 (Friends.successText targetFriend)]
        else [.answer c expectedFd 10 Friends.alreadyFriends],
        if added then [.friendAdded c currentUser targetFriend] else [])
  | .deliverPrivate c expectedSenderFd targetCtx enrichedBody ackBody, _ =>
      some (w,
        .answer c expectedSenderFd MSG_TYPE_ACK ackBody ::
          -- `isCurrentSessionValid(targetCtx, targetCtx->fd)` compares a number with itself
          sendAll targetCtx.toList 1 enrichedBody, [])
  | .retryUser user, _ =>
      some (w,
        match w.registry.getOnlineCtx user with
        | none => []
        | some c => [.dispatch user c], [])
  | _, _ => none

/-- `read` is what `handleRead` has found; `retryScan` are the users `SMEMBERS` returned. -/
inductive Label (R : Nat) where
  | accept (fd : Nat)
  | disconnect (fd : Nat)
  | read (e : Fin R) (packets : List Packet)
  | takeTask (w : Fin 12)
  | takeDbTask (i : Fin 20)
  | takeRedisTask (i : Fin 16)
  | retryScan (users : List Bytes)
  | move (t : Thread R) (answer : Answer)

variable {R : Nat}

def step (s : State R) : Label R → Option (State R × List Event)
  | .accept fd =>
      -- The kernel does not give out a number that is in use.
      match s.world.registry.clients fd with
      | none =>
          let r := s.world.registry
          some ({ s with world := { s.world with
            registry := (r.makeCtx fd).addClientCtx r.nextCtx fd } }, [])
      | some _ => none
  | .disconnect fd =>
      match s.world.registry.getClientCtxByFd fd with
      | none => some (s, [])
      | some c =>
          (s.world.registry.contexts c).map fun ctx =>
            ({ s with world := { s.world with registry := s.world.registry.unregister fd ctx } }, [])
  | .read e packets =>
      if ∀ p ∈ packets, (s.world.registry.contexts p.ctx).isSome then
        Agenda.begin s (.reactor e) s.world (packets.map .deliver)
      else none
  | .takeTask w =>
      match s.world.tasks with
      | [] => none
      | p :: rest => Agenda.begin s (.business w) { s.world with tasks := rest } [.processPacket p]
  | .takeDbTask i =>
      match s.world.dbTasks with
      | [] => none
      | task :: rest => Agenda.begin s (.db i) { s.world with dbTasks := rest } [.dbTask task]
  | .takeRedisTask i =>
      match s.world.redisTasks with
      | [] => none
      | task :: rest =>
          Agenda.begin s (.redis i) { s.world with redisTasks := rest } [.redisTask task]
  | .retryScan users => Agenda.begin s .retry s.world (users.map .retryUser)
  | .move t answer => Agenda.move (exec md5) s t answer

end

/-- The server at its start, on a thread whose id hashes to `hash`. -/
def initial (R : Nat) (hash : UInt64) : State R where
  world := { msgIdGen := .create hash }
  agenda := fun _ => []

/-! ## 8. What is owed to a client -/

/-- What a packet obliges the server to: an answer, or for a chat packet a place in the log. -/
inductive Duty where
  | heartbeat
  | login
  | history
  | addFriend
  | friendList
  | chat
deriving DecidableEq, Repr

namespace Duty

def ofRequest (type : UInt16) : Option Duty :=
  if type = 1 then some .chat
  else if type = 2 then some .heartbeat
  else if type = 4 then some .login
  else if type = 7 then some .history
  else if type = 9 then some .addFriend
  else if type = 11 then some .friendList
  else none

def ofReply (type : UInt16) : Option Duty :=
  if type = 2 then some .heartbeat
  else if type = 5 then some .login
  else if type = 8 then some .history
  else if type = 10 then some .addFriend
  else if type = 12 then some .friendList
  else none

/-- 1 if it is this duty towards this connection. -/
def share (d : Duty) (c : Nat) (duty : Option Duty) (ctx : Nat) : Nat :=
  if ctx = c ∧ duty = some d then 1 else 0

/-- A login that has succeeded obliges to a friend list too. -/
def incurred (d : Duty) (c : Nat) : Event → Nat
  | .received p => d.share c (ofRequest p.type) p.ctx
  | .loggedIn ctx _ => d.share c (some .friendList) ctx
  | _ => 0

def paid (d : Duty) (c : Nat) : Event → Nat
  | .sent ctx type _ => d.share c (ofReply type) ctx
  | .logged ctx _ _ _ => d.share c (some .chat) ctx
  | .refused p => d.share c (ofRequest p.type) p.ctx
  | .ignored ctx type => d.share c (ofRequest type) ctx
  | _ => 0

end Duty

def DbTask.debt (d : Duty) (c : Nat) : DbTask → Nat
  | .login ctx _ _ _ => d.share c (some .login) ctx
  | .history ctx _ _ _ _ => d.share c (some .history) ctx
  | .addFriend ctx _ _ _ => d.share c (some .addFriend) ctx

def RedisTask.debt (d : Duty) (c : Nat) : RedisTask → Nat
  | .friendList ctx _ _ => d.share c (some .friendList) ctx
  | _ => 0

def Packet.debt (d : Duty) (c : Nat) (p : Packet) : Nat := d.share c (Duty.ofRequest p.type) p.ctx

def Act.debt (d : Duty) (c : Nat) : Act → Nat
  | .processPacket p => p.debt d c
  | .sendPacket ctx type _ => d.share c (Duty.ofReply type) ctx
  | .answer ctx _ type _ => d.share c (Duty.ofReply type) ctx
  | .number ctx _ _ _ => d.share c (some .chat) ctx
  | .enqueueChatLog ctx _ _ _ => d.share c (some .chat) ctx
  | .enqueueDbTask task => task.debt d c
  | .enqueueRedisTask task => task.debt d c
  | .dbTask task => task.debt d c
  | .redisTask task => task.debt d c
  | .checkLogin ctx _ _ _ => d.share c (some .login) ctx
  | .loginOk ctx _ _ => d.share c (some .login) ctx
  | .sendFriends ctx _ _ => d.share c (some .friendList) ctx
  | .addFriend ctx _ _ _ => d.share c (some .addFriend) ctx
  | _ => 0

/-- What waits in the three queues. -/
def World.debt (d : Duty) (c : Nat) (w : World) : Nat :=
  Agenda.sumOf (Packet.debt d c) w.tasks +
    (Agenda.sumOf (DbTask.debt d c) w.dbTasks + Agenda.sumOf (RedisTask.debt d c) w.redisTasks)

/-- How much the server still owes connection `c`. -/
def owed {R : Nat} (d : Duty) (c : Nat) (s : State R) : Nat :=
  Agenda.owed (World.debt d c) (Act.debt d c) s

/-- Nothing is left to do. -/
structure Quiet {R : Nat} (s : State R) : Prop where
  idle : ∀ t, s.agenda t = []
  tasks : s.world.tasks = []
  dbTasks : s.world.dbTasks = []
  redisTasks : s.world.redisTasks = []

end Requests
end EpollChat
