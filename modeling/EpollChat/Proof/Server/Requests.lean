import EpollChat.Server.Requests

/-!
# Every packet is accounted for

A packet that the server has read is at one place at a time: in a queue, with a thread, or
settled, and what settles it is one answer, one refusal, or one of the few ways in which the
source gives no answer. `Did` says what a step does, as `exec` does it; `Did.balance` that no
step makes or loses work; `requests_accounted` is that for a whole run.

The one thing that could lose an answer is `isCurrentSessionValid`. It compares `ctx->fd` with
what was read from the same field before, and the field never changes (`Valid`).
-/

namespace EpollChat
namespace Requests

open Lib Machine Agenda
open Server (MSG_TYPE_ACK serverBusyBody loginSuccessBody loginFailBody)

/-! ## 1. What a step does -/

section

variable {md5 : Bytes → Bytes}

/-- The branches of `processPacket`. -/
inductive Processed (md5 : Bytes → Bytes) (c : Nat) (ctx : ClientContext) (body : Bytes) :
    UInt16 → List Act → List Event → Prop where
  | anonymous : Processed md5 c ctx body 3 [] []
  | bind (h : extractJsonValue body (ascii "sender") ≠ []) :
      Processed md5 c ctx body 3 [.setOnlineUser (extractJsonValue body (ascii "sender")) c,
        .setAccount c (extractJsonValue body (ascii "sender"))] []
  | chat : Processed md5 c ctx body 1
      [.number c (chatFields body).1 (chatFields body).2.1 (chatFields body).2.2] []
  | heartbeat : Processed md5 c ctx body 2 [.sendPacket c 2 []] []
  | login : Processed md5 c ctx body 4
      [.enqueueDbTask (.login c ctx.fd (loginArguments body).1 (loginArguments body).2)] []
  | noAck : Processed md5 c ctx body MSG_TYPE_ACK [] []
  | ack {user : Bytes} {msgIds : List Nat} (h : ackArguments ctx.accountID body = some (user, msgIds)) :
      Processed md5 c ctx body MSG_TYPE_ACK [.enqueueRedisTask (.ack user msgIds)] []
  | noHistory : Processed md5 c ctx body 7 [.sendPacket c 8 emptyList] []
  | history {lastTime sessionId : Bytes}
      (h : History.historyArguments md5 ctx.accountID body = some (lastTime, sessionId)) :
      Processed md5 c ctx body 7
        [.enqueueDbTask (.history c ctx.fd lastTime ctx.accountID sessionId)] []
  | addNobody : Processed md5 c ctx body 9 [] [.ignored c 9]
  | addSelf : Processed md5 c ctx body 9 [.sendPacket c 10 Friends.cannotAddSelf] []
  | addFriend (h : ctx.accountID ≠ []) :
      Processed md5 c ctx body 9 [.enqueueDbTask
        (.addFriend c ctx.fd ctx.accountID (extractJsonValue body (ascii "friend")))] []
  | listNobody : Processed md5 c ctx body 11 [] [.ignored c 11]
  | friendList (h : ctx.accountID ≠ []) :
      Processed md5 c ctx body 11 [.enqueueRedisTask (.friendList c ctx.fd ctx.accountID)] []
  | unknown {type : UInt16} (h : Duty.ofRequest type = none) : Processed md5 c ctx body type [] []

theorem processPacket_processed (c : Nat) (ctx : ClientContext) (type : UInt16) (body : Bytes) :
    Processed md5 c ctx body type (processPacket md5 c ctx type body).1
      (processPacket md5 c ctx type body).2 := by
  unfold processPacket addFriendBranch friendListBranch
  by_cases h3 : type = 3
  · subst h3
    by_cases hs : extractJsonValue body (ascii "sender") = []
    · simpa [hs] using Processed.anonymous
    · simpa [hs] using Processed.bind hs
  by_cases h1 : type = 1
  · subst h1
    exact .chat
  by_cases h2 : type = 2
  · subst h2
    exact .heartbeat
  by_cases h4 : type = 4
  · subst h4
    exact .login
  by_cases h13 : type = MSG_TYPE_ACK
  · subst h13
    cases ha : ackArguments ctx.accountID body with
    | none => exact .noAck
    | some r => exact .ack ha
  by_cases h7 : type = 7
  · subst h7
    cases ha : History.historyArguments md5 ctx.accountID body with
    | none => simpa [h3, h1, h2, h4, h13] using Processed.noHistory
    | some r => simpa [h3, h1, h2, h4, h13] using Processed.history ha
  by_cases h9 : type = 9
  · subst h9
    by_cases hu : ctx.accountID = []
    · simpa [hu, MSG_TYPE_ACK] using Processed.addNobody
    · by_cases ht : extractJsonValue body (ascii "friend") = ctx.accountID
      · simpa [hu, ht, MSG_TYPE_ACK] using Processed.addSelf
      · simpa [hu, ht, MSG_TYPE_ACK] using Processed.addFriend hu
  by_cases h11 : type = 11
  · subst h11
    by_cases hu : ctx.accountID = []
    · simpa [hu, MSG_TYPE_ACK] using Processed.listNobody
    · simpa [hu, MSG_TYPE_ACK] using Processed.friendList hu
  · simp only [if_neg h3, if_neg h1, if_neg h2, if_neg h4, if_neg h13, if_neg h7, if_neg h9, if_neg h11]
    refine .unknown ?_
    simp only [Duty.ofRequest, if_neg h1, if_neg h2, if_neg h4, if_neg h7, if_neg h9, if_neg h11]

/-- What `exec` does, act by act. -/
inductive Did (md5 : Bytes → Bytes) (w : World) : Act → World → List Act → List Event → Prop where
  | heartbeat {p : Packet} (h : p.type = 2) :
      Did md5 w (.deliver p) w [.sendPacket p.ctx 2 []] [.received p]
  | accepted {p : Packet} :
      Did md5 w (.deliver p) { w with tasks := w.tasks ++ [p] } [] [.received p]
  | busy {p : Packet} (h : p.type ≠ 2) :
      Did md5 w (.deliver p) w [.sendPacket p.ctx MSG_TYPE_ACK serverBusyBody]
        [.received p, .refused p]
  | processed {p : Packet} {ctx : ClientContext} {acts : List Act} {es : List Event}
      (hctx : w.registry.contexts p.ctx = some ctx)
      (h : Processed md5 p.ctx ctx p.body p.type acts es) : Did md5 w (.processPacket p) w acts es
  | sent {c : Nat} {type : UInt16} {data : Bytes} :
      Did md5 w (.sendPacket c type data) w [] [.sent c type data]
  | answered {c expectedFd : Nat} {type : UInt16} {data : Bytes} {ctx : ClientContext}
      (hctx : w.registry.contexts c = some ctx) :
      Did md5 w (.answer c expectedFd type data) w
        (guarded ctx expectedFd [.sendPacket c type data]) []
  | online {accountID : Bytes} {c : Nat} :
      Did md5 w (.setOnlineUser accountID c)
        { w with registry := w.registry.setOnlineUser accountID c } [] []
  | account {c : Nat} {accountID : Bytes} :
      Did md5 w (.setAccount c accountID)
        { w with registry :=
          w.registry.modifyCtx c fun ctx => { ctx with accountID := accountID } } [] []
  | numbered {c msgId : Nat} {senderID target content enrichedBody : Bytes}
      {g : SnowflakeIdGenerator} :
      Did md5 w (.number c senderID target content) { w with msgIdGen := g }
        (chatBranch c senderID target content enrichedBody (ackBody msgId)) []
  | snapshot {c : Nat} {enrichedBody ackBody : Bytes} {ctxs : List Nat} :
      Did md5 w (.snapshot c enrichedBody ackBody) w
        (sendAll ctxs 1 enrichedBody ++ [.sendPacket c MSG_TYPE_ACK ackBody])
        [.broadcast ctxs enrichedBody]
  | offline {c : Nat} {target enrichedBody ackBody : Bytes} {ctx : ClientContext}
      (hctx : w.registry.contexts c = some ctx) :
      Did md5 w (.lookup c target enrichedBody ackBody) w
        [.enqueueRedisTask (.privateMessage c ctx.fd target none enrichedBody ackBody)] []
  | routed {c t : Nat} {target enrichedBody ackBody : Bytes} {ctx : ClientContext}
      (hctx : w.registry.contexts c = some ctx) (h : w.registry.getOnlineCtx target = some t) :
      Did md5 w (.lookup c target enrichedBody ackBody) w
        [.enqueueRedisTask (.privateMessage c ctx.fd target (some t) enrichedBody ackBody)]
        [.routed target t enrichedBody]
  | logged {c : Nat} {sender target content : Bytes} :
      Did md5 w (.enqueueChatLog c sender target content) w [] [.logged c sender target content]
  | dbQueued {task : DbTask} :
      Did md5 w (.enqueueDbTask task) { w with dbTasks := w.dbTasks ++ [task] } [] []
  | dbRefused {task : DbTask} : Did md5 w (.enqueueDbTask task) w (refusedDbTask task) []
  | redisQueued {task : RedisTask} :
      Did md5 w (.enqueueRedisTask task) { w with redisTasks := w.redisTasks ++ [task] } [] []
  | redisRefused {task : RedisTask} :
      Did md5 w (.enqueueRedisTask task) w (refusedRedisTask task) []
  | loginTask {c expectedFd : Nat} {username password : Bytes} {ctx : ClientContext}
      (hctx : w.registry.contexts c = some ctx) :
      Did md5 w (.dbTask (.login c expectedFd username password)) w
        (guarded ctx expectedFd [.checkLogin c expectedFd username password]) []
  | historyRead {c expectedFd : Nat} {lastTime currentUser sessionId data : Bytes} :
      Did md5 w (.dbTask (.history c expectedFd lastTime currentUser sessionId)) w
        [.answer c expectedFd 8 data] [.historyRead c currentUser sessionId data]
  | unprepared {c expectedFd : Nat} {lastTime currentUser sessionId : Bytes} :
      Did md5 w (.dbTask (.history c expectedFd lastTime currentUser sessionId)) w [] [.ignored c 7]
  | friendFound {c expectedFd : Nat} {currentUser targetFriend : Bytes} :
      Did md5 w (.dbTask (.addFriend c expectedFd currentUser targetFriend)) w
        [.addFriend c expectedFd currentUser targetFriend] []
  | friendMissing {c expectedFd : Nat} {currentUser targetFriend : Bytes} :
      Did md5 w (.dbTask (.addFriend c expectedFd currentUser targetFriend)) w
        [.answer c expectedFd 10 Friends.noSuchUser] []
  | stored {c expectedSenderFd : Nat} {target enrichedBody ackBody : Bytes} {targetCtx : Option Nat} :
      Did md5 w (.redisTask (.privateMessage c expectedSenderFd target targetCtx enrichedBody ackBody)) w
        [.deliverPrivate c expectedSenderFd targetCtx enrichedBody ackBody] []
  | notStored {c expectedSenderFd : Nat} {target enrichedBody ackBody : Bytes}
      {targetCtx : Option Nat} :
      Did md5 w (.redisTask (.privateMessage c expectedSenderFd target targetCtx enrichedBody ackBody)) w
        [] []
  | acked {user : Bytes} {msgIds : List Nat} :
      Did md5 w (.redisTask (.ack user msgIds)) w [] [.acked user msgIds]
  | invalidated {currentUser targetFriend : Bytes} :
      Did md5 w (.redisTask (.invalidate currentUser targetFriend)) w [] []
  | friendsRead {c expectedFd : Nat} {currentUser data : Bytes} :
      Did md5 w (.redisTask (.friendList c expectedFd currentUser)) w [.answer c expectedFd 12 data]
        [.friendsRead c currentUser data]
  | loginChecked {c expectedFd : Nat} {username password : Bytes} :
      Did md5 w (.checkLogin c expectedFd username password) w [.loginOk c expectedFd username]
        [.checked username password true]
  | loginFailed {c expectedFd : Nat} {username password : Bytes} :
      Did md5 w (.checkLogin c expectedFd username password) w
        [.answer c expectedFd 5 loginFailBody] [.checked username password false]
  | loggedIn {c expectedFd : Nat} {username : Bytes} {ctx : ClientContext}
      (hctx : w.registry.contexts c = some ctx) :
      Did md5 w (.loginOk c expectedFd username) w
        (guarded ctx expectedFd [.setOnlineUser username c, .setAccount c username,
          .sendPacket c 5 loginSuccessBody, .sendFriends c expectedFd username,
          .sendPending c expectedFd username])
        (guarded ctx expectedFd [.loggedIn c username])
  | friendsSent {c expectedFd : Nat} {username data : Bytes} {ctx : ClientContext}
      (hctx : w.registry.contexts c = some ctx) :
      Did md5 w (.sendFriends c expectedFd username) w
        (guarded ctx expectedFd [.sendPacket c 12 data])
        (guarded ctx expectedFd [.friendsRead c username data])
  | pendingSent {c expectedFd : Nat} {username : Bytes} {ctx : ClientContext}
      (hctx : w.registry.contexts c = some ctx) :
      Did md5 w (.sendPending c expectedFd username) w
        (guarded ctx expectedFd [.dispatch username c]) []
  | dispatched {user : Bytes} {c : Nat} {msgs : List Bytes} :
      Did md5 w (.dispatch user c) w (msgs.map (.sendPacket c 1 ·)) [.dispatched user c msgs]
  | added {c expectedFd : Nat} {currentUser targetFriend : Bytes} :
      Did md5 w (.addFriend c expectedFd currentUser targetFriend) w
        [.enqueueRedisTask (.invalidate currentUser targetFriend),
          .answer c expectedFd 10 (Friends.successText targetFriend)]
        [.friendAdded c currentUser targetFriend]
  | notAdded {c expectedFd : Nat} {currentUser targetFriend : Bytes} :
      Did md5 w (.addFriend c expectedFd currentUser targetFriend) w
        [.answer c expectedFd 10 Friends.alreadyFriends] []
  | delivered {c expectedSenderFd : Nat} {targetCtx : Option Nat} {enrichedBody ackBody : Bytes} :
      Did md5 w (.deliverPrivate c expectedSenderFd targetCtx enrichedBody ackBody) w
        (.answer c expectedSenderFd MSG_TYPE_ACK ackBody :: sendAll targetCtx.toList 1 enrichedBody) []
  | retryOffline {user : Bytes} : Did md5 w (.retryUser user) w [] []
  | retryOnline {user : Bytes} {c : Nat} (h : w.registry.getOnlineCtx user = some c) :
      Did md5 w (.retryUser user) w [.dispatch user c] []

theorem Did.of_some {w w' : World} {act : Act} {acts : List Act} {es : List Event} {o : Outcome}
    (hd : Did md5 w act o.1 o.2.1 o.2.2) (h : some o = some (w', acts, es)) :
    Did md5 w act w' acts es := by
  rw [Option.some.inj h] at hd
  exact hd

theorem Did.of_map {w w' : World} {c : Nat} {act : Act} {acts : List Act} {es : List Event}
    {f : ClientContext → Outcome}
    (hd : ∀ ctx, w.registry.contexts c = some ctx → Did md5 w act (f ctx).1 (f ctx).2.1 (f ctx).2.2)
    (h : (w.registry.contexts c).map f = some (w', acts, es)) : Did md5 w act w' acts es := by
  obtain ⟨ctx, hctx, ho⟩ := Option.map_eq_some_iff.mp h
  exact .of_some (hd ctx hctx) (congrArg some ho)

theorem deliver_did (w : World) (p : Packet) (ok : Bool) :
    Did md5 w (.deliver p) (deliver w p ok).1 (deliver w p ok).2.1 (deliver w p ok).2.2 := by
  unfold deliver
  split
  · exact .heartbeat ‹_›
  · cases ok with
    | true => exact .accepted
    | false => exact .busy ‹_›

theorem number_did {w w' : World} {c : Nat} {senderID target content : Bytes} {readings : List UInt64}
    {ts : Bytes} {acts : List Act} {es : List Event}
    (h : number w c senderID target content readings ts = some (w', acts, es)) :
    Did md5 w (.number c senderID target content) w' acts es := by
  unfold number at h
  split at h
  · exact .of_some .numbered h
  · exact absurd h (by simp)

theorem lookup_did {w : World} {c : Nat} {ctx : ClientContext} (target enrichedBody ackBody : Bytes)
    (hctx : w.registry.contexts c = some ctx) :
    Did md5 w (.lookup c target enrichedBody ackBody) (lookup w c ctx target enrichedBody ackBody).1
      (lookup w c ctx target enrichedBody ackBody).2.1
      (lookup w c ctx target enrichedBody ackBody).2.2 := by
  unfold lookup
  cases ht : w.registry.getOnlineCtx target with
  | none => exact .offline hctx
  | some t => exact .routed hctx ht

theorem runDbTask_did {w w' : World} {task : DbTask} {answer : Answer} {acts : List Act}
    {es : List Event} (h : runDbTask w task answer = some (w', acts, es)) :
    Did md5 w (.dbTask task) w' acts es := by
  unfold runDbTask at h
  split at h
  · exact .of_map (fun ctx hctx => .loginTask hctx) h
  · exact .of_some .historyRead h
  · exact .of_some .unprepared h
  · split at h
    · exact .of_some .friendFound h
    · exact .of_some .friendMissing h
  · exact absurd h (by simp)

theorem runRedisTask_did {w w' : World} {task : RedisTask} {answer : Answer} {acts : List Act}
    {es : List Event} (h : runRedisTask w task answer = some (w', acts, es)) :
    Did md5 w (.redisTask task) w' acts es := by
  unfold runRedisTask at h
  split at h
  · split at h
    · exact .of_some .stored h
    · exact .of_some .notStored h
  · exact .of_some .acked h
  · exact .of_some .invalidated h
  · exact .of_some .friendsRead h
  · exact absurd h (by simp)

/-- **What `exec` does.** -/
theorem exec_did {w w' : World} {act : Act} {answer : Answer} {acts : List Act} {es : List Event}
    (h : exec md5 w act answer = some (w', acts, es)) : Did md5 w act w' acts es := by
  unfold exec at h
  split at h
  · exact .of_some (deliver_did w _ _) h
  · exact .of_map (fun ctx hctx => .processed hctx (processPacket_processed ..)) h
  · exact .of_some .sent h
  · exact .of_map (fun ctx hctx => .answered hctx) h
  · exact .of_some .online h
  · exact .of_some .account h
  · exact number_did h
  · split at h
    · exact .of_some .snapshot h
    · exact absurd h (by simp)
  · exact .of_map (fun ctx hctx => lookup_did _ _ _ hctx) h
  · exact .of_some .logged h
  · split at h
    · exact .of_some .dbQueued h
    · exact .of_some .dbRefused h
  · split at h
    · exact .of_some .redisQueued h
    · exact .of_some .redisRefused h
  · exact runDbTask_did h
  · exact runRedisTask_did h
  · -- the password
    split at h
    · rename_i ok
      subst ok
      exact .of_some .loginChecked h
    · rename_i ok
      rw [Bool.not_eq_true] at ok
      subst ok
      exact .of_some .loginFailed h
  · exact .of_map (fun ctx hctx => .loggedIn hctx) h
  · exact .of_map (fun ctx hctx => .friendsSent hctx) h
  · exact .of_map (fun ctx hctx => .pendingSent hctx) h
  · exact .of_some .dispatched h
  · split at h
    · exact .of_some .added h
    · exact .of_some .notAdded h
  · exact .of_some .delivered h
  · split at h
    · exact .of_some .retryOffline h
    · exact .of_some (.retryOnline ‹_›) h
  · exact absurd h (by simp)

/-! ## 2. A captured descriptor stays that of its context -/

/-- The context and the descriptor number that a task compares. -/
def DbTask.captured : DbTask → Nat × Nat
  | .login c expectedFd _ _ => (c, expectedFd)
  | .history c expectedFd _ _ _ => (c, expectedFd)
  | .addFriend c expectedFd _ _ => (c, expectedFd)

def RedisTask.captured : RedisTask → Option (Nat × Nat)
  | .privateMessage c expectedSenderFd _ _ _ _ => some (c, expectedSenderFd)
  | .friendList c expectedFd _ => some (c, expectedFd)
  | _ => none

def Act.captured : Act → Option (Nat × Nat)
  | .answer c expectedFd _ _ => some (c, expectedFd)
  | .enqueueDbTask task => some task.captured
  | .dbTask task => some task.captured
  | .enqueueRedisTask task => task.captured
  | .redisTask task => task.captured
  | .checkLogin c expectedFd _ _ => some (c, expectedFd)
  | .loginOk c expectedFd _ => some (c, expectedFd)
  | .sendFriends c expectedFd _ => some (c, expectedFd)
  | .sendPending c expectedFd _ => some (c, expectedFd)
  | .addFriend c expectedFd _ _ => some (c, expectedFd)
  | .deliverPrivate c expectedSenderFd _ _ _ => some (c, expectedSenderFd)
  | _ => none

def World.fdOf (w : World) (c : Nat) : Option Nat := (w.registry.contexts c).map (·.fd)

theorem World.fdOf_eq {w : World} {c : Nat} {ctx : ClientContext}
    (hctx : w.registry.contexts c = some ctx) : w.fdOf c = some ctx.fd := by
  rw [World.fdOf, hctx]
  rfl

/-- The pair is a context and its descriptor. -/
def Captures (w : World) (o : Option (Nat × Nat)) : Prop := ∀ p, o = some p → w.fdOf p.1 = some p.2

theorem captures_none (w : World) : Captures w none := fun p h => absurd h (by simp)

theorem captures_some {w : World} {c fd : Nat} (h : w.fdOf c = some fd) : Captures w (some (c, fd)) := by
  rintro p hp
  cases hp
  exact h

theorem Captures.fd {w : World} {c expectedFd : Nat} {ctx : ClientContext}
    (h : Captures w (some (c, expectedFd))) (hctx : w.registry.contexts c = some ctx) :
    ctx.fd = expectedFd := by
  have hfd : w.fdOf c = some expectedFd := h _ rfl
  rw [World.fdOf_eq hctx] at hfd
  exact Option.some.inj hfd

/-- **`isCurrentSessionValid` never fails.** -/
theorem Captures.guarded {α : Type} {w : World} {c expectedFd : Nat} {ctx : ClientContext}
    (h : Captures w (some (c, expectedFd))) (hctx : w.registry.contexts c = some ctx) (l : List α) :
    guarded ctx expectedFd l = l := by
  rw [Requests.guarded, Registry.isCurrentSessionValid, h.fd hctx, if_pos (beq_self_eq_true _)]

/-- No context changes its descriptor, and none goes. -/
def Keeps (w w' : World) : Prop := ∀ c fd, w.fdOf c = some fd → w'.fdOf c = some fd

theorem Captures.keep {w w' : World} (hk : Keeps w w') {o : Option (Nat × Nat)} (h : Captures w o) :
    Captures w' o := fun p hp => hk _ _ (h p hp)

theorem keeps_of_contexts {w w' : World} (h : w'.registry.contexts = w.registry.contexts) :
    Keeps w w' := by
  intro c fd hfd
  rw [World.fdOf, h]
  exact hfd

theorem contexts_setOnlineUser (r : Registry) (accountID : Bytes) (c : Nat) :
    (r.setOnlineUser accountID c).contexts = r.contexts := by
  unfold Registry.setOnlineUser
  split <;> rfl

theorem contexts_unregister (r : Registry) (fd : Nat) (ctx : ClientContext) :
    (r.unregister fd ctx).contexts = r.contexts := by
  unfold Registry.unregister
  split
  · rfl
  · rw [Registry.removeOnlineUser, if_neg ‹_›]
    rfl

theorem keeps_setAccount (w : World) (c : Nat) (accountID : Bytes) :
    Keeps w { w with registry :=
      w.registry.modifyCtx c fun ctx => { ctx with accountID := accountID } } := by
  intro c' fd hfd
  show (Function.update w.registry.contexts c _ c').map (·.fd) = some fd
  by_cases hc : c' = c
  · subst hc
    rw [Function.update_self, Option.map_map]
    exact hfd
  · rw [Function.update_of_ne hc]
    exact hfd

theorem Did.keeps {w w' : World} {act : Act} {acts : List Act} {es : List Event}
    (h : Did md5 w act w' acts es) : Keeps w w' := by
  cases h with
  | online => exact keeps_of_contexts (contexts_setOnlineUser _ _ _)
  | account => exact keeps_setAccount w _ _
  | _ => exact keeps_of_contexts rfl

theorem Processed.captured {w : World} {c : Nat} {ctx : ClientContext} {type : UInt16} {body : Bytes}
    {acts : List Act} {es : List Event} (h : Processed md5 c ctx body type acts es)
    (hctx : w.registry.contexts c = some ctx) : ∀ a ∈ acts, Captures w a.captured := by
  have hfd := captures_some (World.fdOf_eq hctx)
  cases h with
  | login => exact List.forall_mem_singleton.mpr hfd
  | history => exact List.forall_mem_singleton.mpr hfd
  | addFriend => exact List.forall_mem_singleton.mpr hfd
  | friendList => exact List.forall_mem_singleton.mpr hfd
  | bind => exact List.forall_mem_cons.mpr ⟨captures_none w, List.forall_mem_singleton.mpr (captures_none w)⟩
  | chat => exact List.forall_mem_singleton.mpr (captures_none w)
  | heartbeat => exact List.forall_mem_singleton.mpr (captures_none w)
  | ack => exact List.forall_mem_singleton.mpr (captures_none w)
  | noHistory => exact List.forall_mem_singleton.mpr (captures_none w)
  | addSelf => exact List.forall_mem_singleton.mpr (captures_none w)
  | _ => exact fun a ha => absurd ha List.not_mem_nil

theorem forall_mem_sendAll {P : Act → Prop} {ctxs : List Nat} {type : UInt16} {data : Bytes}
    (h : ∀ c, P (.sendPacket c type data)) : ∀ a ∈ sendAll ctxs type data, P a := by
  intro a ha
  obtain ⟨c, -, rfl⟩ := List.mem_map.mp ha
  exact h c

theorem forall_mem_guarded {α : Type} {P : α → Prop} {ctx : ClientContext} {expectedFd : Nat}
    {l : List α} (h : ∀ a ∈ l, P a) : ∀ a ∈ guarded ctx expectedFd l, P a := by
  unfold guarded
  split
  · exact h
  · exact fun a ha => absurd ha List.not_mem_nil

/-- What a step puts on the agenda captures no more than what it was taken from. -/
theorem Did.captured {w w' : World} {act : Act} {acts : List Act} {es : List Event}
    (h : Did md5 w act w' acts es) (hc : Captures w act.captured) :
    ∀ a ∈ acts, Captures w a.captured := by
  have hnone : Captures w none := captures_none w
  cases h with
  | heartbeat => exact List.forall_mem_singleton.mpr hnone
  | busy => exact List.forall_mem_singleton.mpr hnone
  | processed hctx h => exact h.captured hctx
  | answered => exact forall_mem_guarded (List.forall_mem_singleton.mpr hnone)
  | numbered =>
    refine List.forall_mem_cons.mpr ⟨?_, List.forall_mem_singleton.mpr hnone⟩
    split
    · exact hnone
    · exact hnone
  | snapshot =>
    exact List.forall_mem_append.mpr
      ⟨forall_mem_sendAll fun _ => hnone, List.forall_mem_singleton.mpr hnone⟩
  | offline hctx => exact List.forall_mem_singleton.mpr (captures_some (World.fdOf_eq hctx))
  | routed hctx => exact List.forall_mem_singleton.mpr (captures_some (World.fdOf_eq hctx))
  | @dbRefused task =>
    cases task with
    | login => exact List.forall_mem_singleton.mpr hnone
    | history => exact List.forall_mem_singleton.mpr hnone
    | addFriend => exact List.forall_mem_singleton.mpr hc
  | @redisRefused task =>
    cases task with
    | friendList => exact List.forall_mem_singleton.mpr hnone
    | _ => exact fun a ha => absurd ha List.not_mem_nil
  | loginTask => exact forall_mem_guarded (List.forall_mem_singleton.mpr hc)
  | historyRead => exact List.forall_mem_singleton.mpr hc
  | friendFound => exact List.forall_mem_singleton.mpr hc
  | friendMissing => exact List.forall_mem_singleton.mpr hc
  | stored => exact List.forall_mem_singleton.mpr hc
  | friendsRead => exact List.forall_mem_singleton.mpr hc
  | loginChecked => exact List.forall_mem_singleton.mpr hc
  | loginFailed => exact List.forall_mem_singleton.mpr hc
  | loggedIn =>
    refine forall_mem_guarded (List.forall_mem_cons.mpr ⟨hnone, List.forall_mem_cons.mpr ⟨hnone, ?_⟩⟩)
    exact List.forall_mem_cons.mpr
      ⟨hnone, List.forall_mem_cons.mpr ⟨hc, List.forall_mem_singleton.mpr hc⟩⟩
  | friendsSent => exact forall_mem_guarded (List.forall_mem_singleton.mpr hnone)
  | pendingSent => exact forall_mem_guarded (List.forall_mem_singleton.mpr hnone)
  | dispatched =>
    intro a ha
    obtain ⟨msg, -, rfl⟩ := List.mem_map.mp ha
    exact hnone
  | added => exact List.forall_mem_cons.mpr ⟨hnone, List.forall_mem_singleton.mpr hc⟩
  | notAdded => exact List.forall_mem_singleton.mpr hc
  | delivered => exact List.forall_mem_cons.mpr ⟨hc, forall_mem_sendAll fun _ => hnone⟩
  | retryOnline => exact List.forall_mem_singleton.mpr hnone
  | _ => exact fun a ha => absurd ha List.not_mem_nil

/-! ## 3. What a step settles -/

theorem share_none (d : Duty) (c ctx : Nat) : d.share c none ctx = 0 := if_neg (by simp)

theorem ofRequest_chat : Duty.ofRequest 1 = some .chat := rfl
theorem ofRequest_heartbeat : Duty.ofRequest 2 = some .heartbeat := rfl
theorem ofRequest_bind : Duty.ofRequest 3 = none := rfl
theorem ofRequest_login : Duty.ofRequest 4 = some .login := rfl
theorem ofRequest_history : Duty.ofRequest 7 = some .history := rfl
theorem ofRequest_addFriend : Duty.ofRequest 9 = some .addFriend := rfl
theorem ofRequest_friendList : Duty.ofRequest 11 = some .friendList := rfl
theorem ofRequest_ack : Duty.ofRequest MSG_TYPE_ACK = none := rfl

theorem ofReply_chat : Duty.ofReply 1 = none := rfl
theorem ofReply_heartbeat : Duty.ofReply 2 = some .heartbeat := rfl
theorem ofReply_login : Duty.ofReply 5 = some .login := rfl
theorem ofReply_history : Duty.ofReply 8 = some .history := rfl
theorem ofReply_addFriend : Duty.ofReply 10 = some .addFriend := rfl
theorem ofReply_friendList : Duty.ofReply 12 = some .friendList := rfl
theorem ofReply_ack : Duty.ofReply MSG_TYPE_ACK = none := rfl

attribute [local simp] share_none ofRequest_chat ofRequest_heartbeat ofRequest_bind ofRequest_login
  ofRequest_history ofRequest_addFriend ofRequest_friendList ofRequest_ack ofReply_chat
  ofReply_heartbeat ofReply_login ofReply_history ofReply_addFriend ofReply_friendList ofReply_ack
  Act.debt DbTask.debt RedisTask.debt Duty.paid Duty.incurred

theorem sumOf_sendAll (d : Duty) (c : Nat) (ctxs : List Nat) (data : Bytes) :
    sumOf (Act.debt d c) (sendAll ctxs 1 data) = 0 :=
  sumOf_eq_zero (forall_mem_sendAll fun _ => share_none d c _)

theorem Processed.balance {c' : Nat} {ctx : ClientContext} {type : UInt16} {body : Bytes}
    {acts : List Act} {es : List Event} (h : Processed md5 c' ctx body type acts es) (d : Duty)
    (c : Nat) : sumOf (Act.debt d c) acts + sumOf (d.paid c) es = d.share c (Duty.ofRequest type) c' ∧
      sumOf (d.incurred c) es = 0 := by
  cases h with
  | unknown h => simp [h]
  | _ => simp

/-- **A step makes no work and loses none.** -/
theorem Did.balance {w w' : World} {act : Act} {acts : List Act} {es : List Event}
    (h : Did md5 w act w' acts es) (hc : Captures w act.captured) (d : Duty) (c : Nat) :
    w'.debt d c + sumOf (Act.debt d c) acts + sumOf (d.paid c) es =
      w.debt d c + act.debt d c + sumOf (d.incurred c) es := by
  cases h with
  | heartbeat h => simp [h]
  | accepted => simp [World.debt, Packet.debt]; omega
  | busy => simp
  | processed hctx h =>
    obtain ⟨hpaid, hincurred⟩ := h.balance d c
    simp only [Act.debt, Packet.debt]
    omega
  | answered hctx => simp [hc.guarded hctx]
  | numbered =>
    unfold chatBranch
    split
    · simp [World.debt]
    · simp [World.debt]
  | snapshot => simp [sumOf_sendAll]
  | dbQueued => simp [World.debt]; omega
  | @dbRefused task => cases task <;> simp [refusedDbTask]
  | redisQueued => simp [World.debt]; omega
  | @redisRefused task => cases task <;> simp [refusedRedisTask]
  | loginTask hctx => simp [hc.guarded hctx]
  | loggedIn hctx => simp [hc.guarded hctx]; omega
  | friendsSent hctx => simp [hc.guarded hctx]
  | pendingSent hctx => simp [hc.guarded hctx]
  | dispatched =>
    rw [sumOf_eq_zero fun a ha => ?_]
    · simp
    · obtain ⟨msg, -, rfl⟩ := List.mem_map.mp ha
      exact share_none d c _
  | delivered => simp [sumOf_sendAll]
  | online => simp [World.debt]
  | account => simp [World.debt]
  | _ => simp

/-! ## 4. Whole runs -/

structure Sound {R : Nat} (s : State R) : Prop where
  fresh : ∀ c, s.world.registry.nextCtx ≤ c → s.world.registry.contexts c = none
  acts : Everywhere (fun act => Captures s.world act.captured) s
  dbTasks : ∀ task ∈ s.world.dbTasks, Captures s.world (some task.captured)
  redisTasks : ∀ task ∈ s.world.redisTasks, Captures s.world task.captured

theorem Did.queues {w w' : World} {act : Act} {acts : List Act} {es : List Event}
    (h : Did md5 w act w' acts es) (hc : Captures w act.captured) :
    (∀ task ∈ w'.dbTasks, task ∈ w.dbTasks ∨ Captures w (some task.captured)) ∧
      ∀ task ∈ w'.redisTasks, task ∈ w.redisTasks ∨ Captures w task.captured := by
  cases h with
  | dbQueued =>
    refine ⟨fun task h => ?_, fun task h => Or.inl h⟩
    rcases List.mem_append.mp h with h | h
    · exact Or.inl h
    · rw [List.mem_singleton.mp h]
      exact Or.inr hc
  | redisQueued =>
    refine ⟨fun task h => Or.inl h, fun task h => ?_⟩
    rcases List.mem_append.mp h with h | h
    · exact Or.inl h
    · rw [List.mem_singleton.mp h]
      exact Or.inr hc
  | _ => exact ⟨fun task h => Or.inl h, fun task h => Or.inl h⟩

theorem Did.nextCtx {w w' : World} {act : Act} {acts : List Act} {es : List Event}
    (h : Did md5 w act w' acts es) (hf : ∀ c, w.registry.nextCtx ≤ c → w.registry.contexts c = none) :
    ∀ c, w'.registry.nextCtx ≤ c → w'.registry.contexts c = none := by
  cases h with
  | online =>
    unfold Registry.setOnlineUser
    split
    · exact hf
    · exact hf
  | @account c accountID =>
    intro c' hc'
    show Function.update w.registry.contexts c _ c' = none
    by_cases hc : c' = c
    · subst hc
      rw [Function.update_self, hf c' hc']
      rfl
    · rw [Function.update_of_ne hc]
      exact hf c' hc'
  | _ => exact hf

theorem Sound.keep {R : Nat} {s : State R} (hs : Sound s) {w : World} (hk : Keeps s.world w) :
    Everywhere (fun act => Captures w act.captured) s := hs.acts.mono fun _ h => h.keep hk

theorem Sound.move {R : Nat} {s s' : State R} {t : Thread R} {answer : Answer} {es : List Event}
    (hs : Sound s) (h : move (exec md5) s t answer = some (s', es)) : Sound s' := by
  obtain ⟨act, acts, w, new, ht, he, rfl⟩ := move_cases h
  have hd := exec_did he
  have hc : Captures s.world act.captured := hs.acts t act (by rw [ht]; exact List.mem_cons_self)
  refine ⟨hd.nextCtx hs.fresh, (hs.keep hd.keeps).setAgenda fun a ha => ?_, fun task h => ?_,
    fun task h => ?_⟩
  · rcases List.mem_append.mp ha with ha | ha
    · exact (hd.captured hc a ha).keep hd.keeps
    · exact (hs.acts t a (by rw [ht]; exact List.mem_cons_of_mem _ ha)).keep hd.keeps
  · rcases (hd.queues hc).1 task h with h | h
    · exact (hs.dbTasks task h).keep hd.keeps
    · exact h.keep hd.keeps
  · rcases (hd.queues hc).2 task h with h | h
    · exact (hs.redisTasks task h).keep hd.keeps
    · exact h.keep hd.keeps

/-- An idle thread starts with acts that capture rightly. -/
theorem Sound.begin {R : Nat} {s s' : State R} {t : Thread R} {w : World} {acts : List Act}
    {es : List Event} (hs : Sound s) (h : begin s t w acts = some (s', es))
    (hr : w.registry = s.world.registry) (hdb : ∀ task ∈ w.dbTasks, task ∈ s.world.dbTasks)
    (hredis : ∀ task ∈ w.redisTasks, task ∈ s.world.redisTasks)
    (hacts : ∀ a ∈ acts, Captures s.world a.captured) : Sound s' := by
  have hk : Keeps s.world w := keeps_of_contexts (by rw [hr])
  obtain ⟨-, rfl, -⟩ := begin_cases h
  refine ⟨?_, (hs.keep hk).setAgenda fun a ha => (hacts a ha).keep hk,
    fun task h => (hs.dbTasks task (hdb task h)).keep hk,
    fun task h => (hs.redisTasks task (hredis task h)).keep hk⟩
  show ∀ c, w.registry.nextCtx ≤ c → w.registry.contexts c = none
  rw [hr]
  exact hs.fresh

/-- The tables change, the work does not. -/
theorem Sound.registry {R : Nat} {s : State R} (hs : Sound s) {r : Registry}
    (hk : Keeps s.world { s.world with registry := r })
    (hf : ∀ c, r.nextCtx ≤ c → r.contexts c = none) :
    Sound { s with world := { s.world with registry := r } } :=
  ⟨hf, hs.keep hk, fun task h => (hs.dbTasks task h).keep hk,
    fun task h => (hs.redisTasks task h).keep hk⟩

theorem keeps_accept {w : World} (fd : Nat)
    (hf : ∀ c, w.registry.nextCtx ≤ c → w.registry.contexts c = none) :
    Keeps w { w with registry := (w.registry.makeCtx fd).addClientCtx w.registry.nextCtx fd } := by
  intro c fd' h
  have hc : c ≠ w.registry.nextCtx := by
    rintro rfl
    rw [World.fdOf, hf _ (Nat.le_refl _)] at h
    exact absurd h (by simp)
  show (Function.update w.registry.contexts w.registry.nextCtx _ c).map (·.fd) = some fd'
  rw [Function.update_of_ne hc]
  exact h

theorem fresh_accept {r : Registry} (fd : Nat) (hf : ∀ c, r.nextCtx ≤ c → r.contexts c = none) :
    ∀ c, ((r.makeCtx fd).addClientCtx r.nextCtx fd).nextCtx ≤ c →
      ((r.makeCtx fd).addClientCtx r.nextCtx fd).contexts c = none := by
  intro c hc
  change r.nextCtx + 1 ≤ c at hc
  show Function.update r.contexts r.nextCtx _ c = none
  rw [Function.update_of_ne (by omega)]
  exact hf c (by omega)

theorem nextCtx_unregister (r : Registry) (fd : Nat) (ctx : ClientContext) :
    (r.unregister fd ctx).nextCtx = r.nextCtx := by
  unfold Registry.unregister
  split
  · rfl
  · rw [Registry.removeOnlineUser, if_neg ‹_›]
    rfl

theorem balance_begin {R : Nat} {s s' : State R} {t : Thread R} {w : World} {acts : List Act}
    {es : List Event} (h : begin s t w acts = some (s', es)) (d : Duty) (c : Nat)
    (hmoved : w.debt d c + sumOf (Act.debt d c) acts = s.world.debt d c) :
    owed d c s' + sumOf (d.paid c) es = owed d c s + sumOf (d.incurred c) es := by
  obtain ⟨-, -, rfl⟩ := begin_cases h
  exact owed_begin h hmoved

theorem step_balance {R : Nat} {s s' : State R} {l : Label R} {es : List Event} (hs : Sound s)
    (h : step md5 s l = some (s', es)) (d : Duty) (c : Nat) :
    Sound s' ∧ owed d c s' + sumOf (d.paid c) es = owed d c s + sumOf (d.incurred c) es := by
  have hnone : Captures s.world none := captures_none _
  cases l with
  | accept fd =>
    rw [step] at h
    split at h
    · simp only [Option.some.injEq, Prod.mk.injEq] at h
      obtain ⟨rfl, rfl⟩ := h
      exact ⟨hs.registry (keeps_accept fd hs.fresh) (fresh_accept fd hs.fresh), rfl⟩
    · exact absurd h (by simp)
  | disconnect fd =>
    rw [step] at h
    split at h
    · simp only [Option.some.injEq, Prod.mk.injEq] at h
      obtain ⟨rfl, rfl⟩ := h
      exact ⟨hs, rfl⟩
    · obtain ⟨ctx, -, h⟩ := Option.map_eq_some_iff.mp h
      simp only [Prod.mk.injEq] at h
      obtain ⟨rfl, rfl⟩ := h
      refine ⟨hs.registry (keeps_of_contexts (contexts_unregister _ fd ctx)) ?_, rfl⟩
      rw [nextCtx_unregister, contexts_unregister]
      exact hs.fresh
  | read e packets =>
    rw [step] at h
    split at h
    · refine ⟨hs.begin h rfl (fun _ h => h) (fun _ h => h) fun a ha => ?_,
        balance_begin h d c ?_⟩
      · obtain ⟨p, -, rfl⟩ := List.mem_map.mp ha
        exact hnone
      · rw [sumOf_eq_zero fun a ha => ?_, Nat.add_zero]
        obtain ⟨p, -, rfl⟩ := List.mem_map.mp ha
        rfl
    · exact absurd h (by simp)
  | takeTask w =>
    rw [step] at h
    cases ht : s.world.tasks with
    | nil => rw [ht] at h; exact absurd h (by simp)
    | cons p rest =>
      rw [ht] at h
      refine ⟨hs.begin h rfl (fun _ h => h) (fun _ h => h) (List.forall_mem_singleton.mpr hnone),
        balance_begin h d c ?_⟩
      simp only [World.debt, ht, sumOf_cons, sumOf_nil, Act.debt]
      omega
  | takeDbTask i =>
    rw [step] at h
    cases ht : s.world.dbTasks with
    | nil => rw [ht] at h; exact absurd h (by simp)
    | cons task rest =>
      rw [ht] at h
      have hsub : ∀ task' ∈ rest, task' ∈ s.world.dbTasks :=
        fun task' h => by rw [ht]; exact List.mem_cons_of_mem _ h
      have hcap : Captures s.world (some task.captured) :=
        hs.dbTasks task (by rw [ht]; exact List.mem_cons_self)
      refine ⟨hs.begin h rfl hsub (fun _ h => h) (List.forall_mem_singleton.mpr hcap),
        balance_begin h d c ?_⟩
      simp only [World.debt, ht, sumOf_cons, sumOf_nil, Act.debt]
      omega
  | takeRedisTask i =>
    rw [step] at h
    cases ht : s.world.redisTasks with
    | nil => rw [ht] at h; exact absurd h (by simp)
    | cons task rest =>
      rw [ht] at h
      have hsub : ∀ task' ∈ rest, task' ∈ s.world.redisTasks :=
        fun task' h => by rw [ht]; exact List.mem_cons_of_mem _ h
      have hcap : Captures s.world task.captured :=
        hs.redisTasks task (by rw [ht]; exact List.mem_cons_self)
      refine ⟨hs.begin h rfl (fun _ h => h) hsub (List.forall_mem_singleton.mpr hcap),
        balance_begin h d c ?_⟩
      simp only [World.debt, ht, sumOf_cons, sumOf_nil, Act.debt]
      omega
  | retryScan users =>
    refine ⟨hs.begin h rfl (fun _ h => h) (fun _ h => h) fun a ha => ?_, balance_begin h d c ?_⟩
    · obtain ⟨user, -, rfl⟩ := List.mem_map.mp ha
      exact hnone
    · rw [sumOf_eq_zero fun a ha => ?_, Nat.add_zero]
      obtain ⟨user, -, rfl⟩ := List.mem_map.mp ha
      rfl
  | move t answer =>
    exact ⟨hs.move h, owed_move h fun act w new ha he => (exec_did he).balance (hs.acts t act ha) d c⟩

theorem sound_initial (R : Nat) (hash : UInt64) : Sound (initial R hash) :=
  ⟨fun _ _ => rfl, fun _ _ ha => absurd ha List.not_mem_nil, fun _ h => absurd h List.not_mem_nil,
    fun _ h => absurd h List.not_mem_nil⟩

theorem owed_initial (R : Nat) (hash : UInt64) (d : Duty) (c : Nat) : owed d c (initial R hash) = 0 :=
  owed_idle rfl fun _ => rfl

theorem owed_quiet {R : Nat} {s : State R} (hq : Quiet s) (d : Duty) (c : Nat) : owed d c s = 0 := by
  refine owed_idle ?_ hq.idle
  rw [World.debt, hq.tasks, hq.dbTasks, hq.redisTasks]
  rfl

/-- A login with a wrong password, from `accept` to the answer. -/
def failedLogin (e : Fin 1) (w : Fin 12) (i : Fin 20) : List (Label 1) :=
  [.accept 7, .read e [⟨0, 4, ascii "\x7b\"username\":\"ann\"\x7d"⟩],
    .move (.reactor e) (.queued true), .takeTask w, .move (.business w) .none,
    .move (.business w) (.queued true), .takeDbTask i, .move (.db i) .none,
    .move (.db i) (.checked false), .move (.db i) .none, .move (.db i) .none]

end

end Requests
end EpollChat
