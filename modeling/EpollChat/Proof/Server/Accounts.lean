import EpollChat.Proof.Server.Requests

/-!
# Whose data goes where

The server keeps no permissions. What a connection is sent of an account hangs on one field,
`accountID`, or on an entry of the online table, and both are written in two places: by a type 3
packet, which is believed, and by a login whose password MySQL has confirmed. So whatever a
connection is shown of an account, it has claimed the account itself before, with a packet of
its own (`Claimed`).

The proof follows each piece of work from the packet to the answer: `Act.Justified` is what must
have happened for it to be there.
-/

namespace EpollChat
namespace Requests

open Lib Machine Agenda
open Server (MSG_TYPE_ACK)

/-! ## 1. Claims -/

/-- The connection has said that it is the user, or has given the password. -/
def Claimed (τ : List Event) (c : Nat) (u : Bytes) : Prop :=
  (∃ body, Event.received ⟨c, 3, body⟩ ∈ τ ∧ extractJsonValue body (ascii "sender") = u) ∨
    ∃ body password, Event.received ⟨c, 4, body⟩ ∈ τ ∧ loginArguments body = (u, password) ∧
      Event.checked u password true ∈ τ

/-- A packet to a connection carries nothing but what its type is for: a history that was read for
    it, a friend list that was read for it, a chat message that was broadcast, routed or dispatched
    to it. -/
def Sent (τ : List Event) (c : Nat) (type : UInt16) (data : Bytes) : Prop :=
  (type = 8 → data = emptyList ∨ ∃ u sessionId, Event.historyRead c u sessionId data ∈ τ) ∧
    (type = 12 → data = noFriends ∨ ∃ u, Event.friendsRead c u data ∈ τ) ∧
    (type = 1 → (∃ ctxs, Event.broadcast ctxs data ∈ τ ∧ c ∈ ctxs) ∨
      (∃ u, Event.routed u c data ∈ τ) ∨ ∃ u msgs, Event.dispatched u c msgs ∈ τ ∧ data ∈ msgs)

def DbTask.Justified (τ : List Event) : DbTask → Prop
  | .login c _ username password =>
      ∃ body, Event.received ⟨c, 4, body⟩ ∈ τ ∧ loginArguments body = (username, password)
  | .history c _ _ currentUser _ => Claimed τ c currentUser
  | .addFriend c _ currentUser _ => Claimed τ c currentUser

def RedisTask.Justified (τ : List Event) : RedisTask → Prop
  | .privateMessage _ _ target targetCtx enrichedBody _ =>
      ∀ t, targetCtx = some t → Event.routed target t enrichedBody ∈ τ
  | .friendList c _ currentUser => Claimed τ c currentUser
  | _ => True

def Act.Justified (τ : List Event) : Act → Prop
  | .processPacket p => Event.received p ∈ τ
  | .sendPacket c type data => Sent τ c type data
  | .answer c _ type data => Sent τ c type data
  | .setOnlineUser accountID c => Claimed τ c accountID
  | .setAccount c accountID => Claimed τ c accountID
  | .enqueueDbTask task => task.Justified τ
  | .enqueueRedisTask task => task.Justified τ
  | .dbTask task => task.Justified τ
  | .redisTask task => task.Justified τ
  | .checkLogin c _ username password =>
      ∃ body, Event.received ⟨c, 4, body⟩ ∈ τ ∧ loginArguments body = (username, password)
  | .loginOk c _ username => Claimed τ c username
  | .sendFriends c _ username => Claimed τ c username
  | .sendPending c _ username => Claimed τ c username
  | .dispatch user c => Claimed τ c user
  | .addFriend c _ currentUser _ => Claimed τ c currentUser
  | .deliverPrivate _ _ targetCtx enrichedBody _ =>
      ∀ t, targetCtx = some t → ∃ target, Event.routed target t enrichedBody ∈ τ
  | _ => True

/-- What an event presupposes. -/
def Event.Justified (τ : List Event) : Event → Prop
  | .sent c type data => Sent τ c type data
  | .routed target c _ => Claimed τ c target
  | .loggedIn c username => Claimed τ c username
  | .historyRead c user _ _ => Claimed τ c user
  | .friendsRead c user _ => Claimed τ c user
  | .friendAdded c user _ => Claimed τ c user
  | .dispatched user c _ => Claimed τ c user
  | _ => True

structure World.Justified (τ : List Event) (w : World) : Prop where
  accounts : ∀ c ctx, w.registry.contexts c = some ctx →
    ctx.accountID = [] ∨ Claimed τ c ctx.accountID
  users : ∀ u c, w.registry.users u = some c → Claimed τ c u
  tasks : ∀ p ∈ w.tasks, Event.received p ∈ τ
  dbTasks : ∀ task ∈ w.dbTasks, task.Justified τ
  redisTasks : ∀ task ∈ w.redisTasks, task.Justified τ

/-! ## 2. What has happened stays so -/

section

variable {τ τ' : List Event}

theorem Claimed.mono (h : τ ⊆ τ') {c : Nat} {u : Bytes} (hc : Claimed τ c u) : Claimed τ' c u := by
  rcases hc with ⟨body, hr, hu⟩ | ⟨body, password, hr, hl, hp⟩
  · exact Or.inl ⟨body, h hr, hu⟩
  · exact Or.inr ⟨body, password, h hr, hl, h hp⟩

theorem Sent.mono (h : τ ⊆ τ') {c : Nat} {type : UInt16} {data : Bytes} (hs : Sent τ c type data) :
    Sent τ' c type data := by
  refine ⟨fun ht => ?_, fun ht => ?_, fun ht => ?_⟩
  · rcases hs.1 ht with he | ⟨u, sessionId, hr⟩
    · exact Or.inl he
    · exact Or.inr ⟨u, sessionId, h hr⟩
  · rcases hs.2.1 ht with he | ⟨u, hr⟩
    · exact Or.inl he
    · exact Or.inr ⟨u, h hr⟩
  · rcases hs.2.2 ht with ⟨ctxs, hb, hc⟩ | ⟨u, hr⟩ | ⟨u, msgs, hd, hm⟩
    · exact Or.inl ⟨ctxs, h hb, hc⟩
    · exact Or.inr (Or.inl ⟨u, h hr⟩)
    · exact Or.inr (Or.inr ⟨u, msgs, h hd, hm⟩)

theorem DbTask.Justified.mono (h : τ ⊆ τ') {task : DbTask} (hj : task.Justified τ) :
    task.Justified τ' := by
  cases task with
  | login =>
    obtain ⟨body, hr, hl⟩ := hj
    exact ⟨body, h hr, hl⟩
  | history => exact Claimed.mono h hj
  | addFriend => exact Claimed.mono h hj

theorem RedisTask.Justified.mono (h : τ ⊆ τ') {task : RedisTask} (hj : task.Justified τ) :
    task.Justified τ' := by
  cases task with
  | privateMessage => exact fun t ht => h (hj t ht)
  | friendList => exact Claimed.mono h hj
  | ack => trivial
  | invalidate => trivial

theorem Act.Justified.mono (h : τ ⊆ τ') {act : Act} (hj : act.Justified τ) : act.Justified τ' := by
  cases act with
  | processPacket => exact h hj
  | sendPacket => exact Sent.mono h hj
  | answer => exact Sent.mono h hj
  | enqueueDbTask => exact DbTask.Justified.mono h hj
  | enqueueRedisTask => exact RedisTask.Justified.mono h hj
  | dbTask => exact DbTask.Justified.mono h hj
  | redisTask => exact RedisTask.Justified.mono h hj
  | checkLogin =>
    obtain ⟨body, hr, hl⟩ := hj
    exact ⟨body, h hr, hl⟩
  | deliverPrivate =>
    intro t ht
    obtain ⟨target, hr⟩ := hj t ht
    exact ⟨target, h hr⟩
  | deliver => trivial
  | number => trivial
  | snapshot => trivial
  | lookup => trivial
  | enqueueChatLog => trivial
  | retryUser => trivial
  | _ => exact Claimed.mono h hj

theorem Event.Justified.mono (h : τ ⊆ τ') {e : Event} (hj : e.Justified τ) : e.Justified τ' := by
  cases e with
  | sent => exact Sent.mono h hj
  | routed => exact Claimed.mono h hj
  | loggedIn => exact Claimed.mono h hj
  | historyRead => exact Claimed.mono h hj
  | friendsRead => exact Claimed.mono h hj
  | friendAdded => exact Claimed.mono h hj
  | dispatched => exact Claimed.mono h hj
  | _ => trivial

theorem World.Justified.mono (h : τ ⊆ τ') {w : World} (hj : w.Justified τ) : w.Justified τ' :=
  ⟨fun c ctx hctx => (hj.accounts c ctx hctx).imp_right (Claimed.mono h),
    fun u c hu => (hj.users u c hu).mono h, fun p hp => h (hj.tasks p hp),
    fun task ht => (hj.dbTasks task ht).mono h, fun task ht => (hj.redisTasks task ht).mono h⟩

/-- A packet whose type is for none of these things. -/
theorem sent_other {c : Nat} {type : UInt16} {data : Bytes}
    (h : type ≠ 8 ∧ type ≠ 12 ∧ type ≠ 1) : Sent τ c type data :=
  ⟨fun ht => absurd ht h.1, fun ht => absurd ht h.2.1, fun ht => absurd ht h.2.2⟩

theorem sent_history {c : Nat} {data : Bytes}
    (h : data = emptyList ∨ ∃ u sessionId, Event.historyRead c u sessionId data ∈ τ) :
    Sent τ c 8 data := ⟨fun _ => h, fun ht => absurd ht (by simp), fun ht => absurd ht (by simp)⟩

theorem sent_friends {c : Nat} {data : Bytes}
    (h : data = noFriends ∨ ∃ u, Event.friendsRead c u data ∈ τ) : Sent τ c 12 data :=
  ⟨fun ht => absurd ht (by simp), fun _ => h, fun ht => absurd ht (by simp)⟩

theorem sent_chat {c : Nat} {data : Bytes}
    (h : (∃ ctxs, Event.broadcast ctxs data ∈ τ ∧ c ∈ ctxs) ∨ (∃ u, Event.routed u c data ∈ τ) ∨
      ∃ u msgs, Event.dispatched u c msgs ∈ τ ∧ data ∈ msgs) : Sent τ c 1 data :=
  ⟨fun ht => absurd ht (by simp), fun ht => absurd ht (by simp), fun _ => h⟩

end

/-! ## 3. Steps -/

section

variable {md5 : Bytes → Bytes}

theorem Processed.justified {τ : List Event} {p : Packet} {ctx : ClientContext} {acts : List Act}
    {es : List Event} (h : Processed md5 p.ctx ctx p.body p.type acts es)
    (hp : Event.received p ∈ τ) (haccount : ctx.accountID = [] ∨ Claimed τ p.ctx ctx.accountID) :
    (∀ a ∈ acts, a.Justified τ) ∧ ∀ e ∈ es, e.Justified τ := by
  obtain ⟨c, type, body⟩ := p
  dsimp only at h haccount
  cases h with
  | bind =>
    have hc : Claimed τ c (extractJsonValue body (ascii "sender")) := Or.inl ⟨body, hp, rfl⟩
    exact ⟨List.forall_mem_cons.mpr ⟨hc, List.forall_mem_singleton.mpr hc⟩, List.forall_mem_nil _⟩
  | chat => exact ⟨List.forall_mem_singleton.mpr trivial, List.forall_mem_nil _⟩
  | heartbeat =>
    exact ⟨List.forall_mem_singleton.mpr (sent_other (by decide)), List.forall_mem_nil _⟩
  | login =>
    exact ⟨List.forall_mem_singleton.mpr ⟨body, hp, rfl⟩, List.forall_mem_nil _⟩
  | ack => exact ⟨List.forall_mem_singleton.mpr trivial, List.forall_mem_nil _⟩
  | noHistory =>
    exact ⟨List.forall_mem_singleton.mpr (sent_history (Or.inl rfl)), List.forall_mem_nil _⟩
  | history h =>
    refine ⟨List.forall_mem_singleton.mpr (haccount.resolve_left ?_), List.forall_mem_nil _⟩
    intro hempty
    rw [History.historyArguments, if_pos (Or.inl hempty)] at h
    exact absurd h (by simp)
  | addSelf =>
    exact ⟨List.forall_mem_singleton.mpr (sent_other (by decide)), List.forall_mem_nil _⟩
  | addFriend h =>
    exact ⟨List.forall_mem_singleton.mpr (haccount.resolve_left h), List.forall_mem_nil _⟩
  | friendList h =>
    exact ⟨List.forall_mem_singleton.mpr (haccount.resolve_left h), List.forall_mem_nil _⟩
  | addNobody => exact ⟨List.forall_mem_nil _, List.forall_mem_singleton.mpr trivial⟩
  | listNobody => exact ⟨List.forall_mem_nil _, List.forall_mem_singleton.mpr trivial⟩
  | _ => exact ⟨List.forall_mem_nil _, List.forall_mem_nil _⟩

/-- What `getOnlineCtx` finds is an entry of the online table. -/
theorem users_of_getOnlineCtx {r : Registry} {user : Bytes} {c : Nat}
    (h : r.getOnlineCtx user = some c) : r.users user = some c := by
  unfold Registry.getOnlineCtx at h
  split at h
  · exact absurd h (by simp)
  · split at h
    · exact absurd h (by simp)
    · split at h
      · obtain rfl := Option.some.inj h
        assumption
      · exact absurd h (by simp)

/-- **What a step puts on the agenda, and what it shows, is justified** by what it was taken from
    and by the events of the step itself. -/
theorem Did.justified {τ : List Event} {w w' : World} {act : Act} {acts : List Act} {es : List Event}
    (h : Did md5 w act w' acts es) (ha : act.Justified τ) (hw : w.Justified τ) :
    (∀ a ∈ acts, a.Justified (τ ++ es)) ∧ ∀ e ∈ es, e.Justified (τ ++ es) := by
  have hsub : τ ⊆ τ ++ es := List.subset_append_left _ _
  have hes : es ⊆ τ ++ es := List.subset_append_right _ _
  cases h with
  | heartbeat =>
    exact ⟨List.forall_mem_singleton.mpr (sent_other (by decide)), List.forall_mem_singleton.mpr trivial⟩
  | busy =>
    exact ⟨List.forall_mem_singleton.mpr (sent_other (by decide)),
      List.forall_mem_cons.mpr ⟨trivial, List.forall_mem_singleton.mpr trivial⟩⟩
  | processed hctx h =>
    obtain ⟨hacts, hevents⟩ := h.justified ha (hw.accounts _ _ hctx)
    exact ⟨fun a h => (hacts a h).mono hsub, fun e h => (hevents e h).mono hsub⟩
  | sent => exact ⟨List.forall_mem_nil _, List.forall_mem_singleton.mpr (ha.mono hsub)⟩
  | answered =>
    exact ⟨forall_mem_guarded (List.forall_mem_singleton.mpr (ha.mono hsub)), List.forall_mem_nil _⟩
  | numbered =>
    refine ⟨List.forall_mem_cons.mpr ⟨?_, List.forall_mem_singleton.mpr trivial⟩, List.forall_mem_nil _⟩
    split
    · trivial
    · trivial
  | @snapshot c enrichedBody ackBody ctxs =>
    refine ⟨List.forall_mem_append.mpr ⟨fun a h => ?_, ?_⟩, List.forall_mem_singleton.mpr trivial⟩
    · obtain ⟨t, ht, rfl⟩ := List.mem_map.mp h
      exact sent_chat (Or.inl ⟨ctxs, hes List.mem_cons_self, ht⟩)
    · exact List.forall_mem_singleton.mpr (sent_other (by decide))
  | offline =>
    exact ⟨List.forall_mem_singleton.mpr fun t ht => absurd ht (by simp), List.forall_mem_nil _⟩
  | @routed c t target enrichedBody ackBody ctx hctx h =>
    refine ⟨List.forall_mem_singleton.mpr fun t' ht' => ?_, List.forall_mem_singleton.mpr ?_⟩
    · obtain rfl := Option.some.inj ht'
      exact hes List.mem_cons_self
    · exact (hw.users target t (users_of_getOnlineCtx h)).mono hsub
  | dbQueued => exact ⟨List.forall_mem_nil _, List.forall_mem_nil _⟩
  | @dbRefused task =>
    refine ⟨?_, List.forall_mem_nil _⟩
    cases task with
    | login => exact List.forall_mem_singleton.mpr (sent_other (by decide))
    | history => exact List.forall_mem_singleton.mpr (sent_history (Or.inl rfl))
    | addFriend => exact List.forall_mem_singleton.mpr (sent_other (by decide))
  | @redisRefused task =>
    refine ⟨?_, List.forall_mem_nil _⟩
    cases task with
    | friendList => exact List.forall_mem_singleton.mpr (sent_friends (Or.inl rfl))
    | _ => exact List.forall_mem_nil _
  | loginTask =>
    obtain ⟨body, hr, hl⟩ := ha
    exact ⟨forall_mem_guarded (List.forall_mem_singleton.mpr ⟨body, hsub hr, hl⟩), List.forall_mem_nil _⟩
  | historyRead =>
    exact ⟨List.forall_mem_singleton.mpr (sent_history (Or.inr ⟨_, _, hes List.mem_cons_self⟩)),
      List.forall_mem_singleton.mpr (Claimed.mono hsub ha)⟩
  | unprepared =>
    exact ⟨List.forall_mem_nil _, List.forall_mem_singleton.mpr trivial⟩
  | friendFound =>
    exact ⟨List.forall_mem_singleton.mpr (Claimed.mono hsub ha), List.forall_mem_nil _⟩
  | friendMissing =>
    exact ⟨List.forall_mem_singleton.mpr (sent_other (by decide)), List.forall_mem_nil _⟩
  | stored =>
    exact ⟨List.forall_mem_singleton.mpr fun t ht => ⟨_, hsub (ha t ht)⟩, List.forall_mem_nil _⟩
  | friendsRead =>
    exact ⟨List.forall_mem_singleton.mpr (sent_friends (Or.inr ⟨_, hes List.mem_cons_self⟩)),
      List.forall_mem_singleton.mpr (Claimed.mono hsub ha)⟩
  | acked => exact ⟨List.forall_mem_nil _, List.forall_mem_singleton.mpr trivial⟩
  | loginChecked =>
    obtain ⟨body, hr, hl⟩ := ha
    exact ⟨List.forall_mem_singleton.mpr
      (Or.inr ⟨body, _, hsub hr, hl, hes List.mem_cons_self⟩), List.forall_mem_singleton.mpr trivial⟩
  | loginFailed =>
    exact ⟨List.forall_mem_singleton.mpr (sent_other (by decide)), List.forall_mem_singleton.mpr trivial⟩
  | loggedIn =>
    have hc := Claimed.mono hsub ha
    refine ⟨forall_mem_guarded (List.forall_mem_cons.mpr ⟨hc, List.forall_mem_cons.mpr ⟨hc, ?_⟩⟩),
      forall_mem_guarded (List.forall_mem_singleton.mpr hc)⟩
    exact List.forall_mem_cons.mpr ⟨sent_other (by decide),
      List.forall_mem_cons.mpr ⟨hc, List.forall_mem_singleton.mpr hc⟩⟩
  | @friendsSent c expectedFd username data ctx hctx =>
    refine ⟨?_, forall_mem_guarded (List.forall_mem_singleton.mpr (Claimed.mono hsub ha))⟩
    unfold guarded
    split
    · exact List.forall_mem_singleton.mpr
        (sent_friends (Or.inr ⟨username, List.mem_append_right _ List.mem_cons_self⟩))
    · exact List.forall_mem_nil _
  | pendingSent =>
    exact ⟨forall_mem_guarded (List.forall_mem_singleton.mpr (Claimed.mono hsub ha)), List.forall_mem_nil _⟩
  | dispatched =>
    refine ⟨fun a h => ?_, List.forall_mem_singleton.mpr (Claimed.mono hsub ha)⟩
    obtain ⟨msg, hmsg, rfl⟩ := List.mem_map.mp h
    exact sent_chat (Or.inr (Or.inr ⟨_, _, hes List.mem_cons_self, hmsg⟩))
  | added =>
    exact ⟨List.forall_mem_cons.mpr ⟨trivial, List.forall_mem_singleton.mpr (sent_other (by decide))⟩,
      List.forall_mem_singleton.mpr (Claimed.mono hsub ha)⟩
  | notAdded =>
    exact ⟨List.forall_mem_singleton.mpr (sent_other (by decide)), List.forall_mem_nil _⟩
  | delivered =>
    refine ⟨List.forall_mem_cons.mpr ⟨sent_other (by decide), fun a h => ?_⟩, List.forall_mem_nil _⟩
    obtain ⟨t, ht, rfl⟩ := List.mem_map.mp h
    obtain ⟨target, hr⟩ := ha t (Option.mem_toList.mp ht)
    exact sent_chat (Or.inr (Or.inl ⟨target, hsub hr⟩))
  | @retryOnline user c h =>
    exact ⟨List.forall_mem_singleton.mpr ((hw.users user c (users_of_getOnlineCtx h)).mono hsub), List.forall_mem_nil _⟩
  | accepted => exact ⟨List.forall_mem_nil _, List.forall_mem_singleton.mpr trivial⟩
  | logged => exact ⟨List.forall_mem_nil _, List.forall_mem_singleton.mpr trivial⟩
  | _ => exact ⟨List.forall_mem_nil _, List.forall_mem_nil _⟩

theorem justified_setOnlineUser {τ : List Event} {w : World} {accountID : Bytes} {c : Nat}
    (hw : w.Justified τ) (hc : Claimed τ c accountID) :
    ({ w with registry := w.registry.setOnlineUser accountID c } : World).Justified τ := by
  refine ⟨?_, fun u c' h => ?_, hw.tasks, hw.dbTasks, hw.redisTasks⟩
  · rw [contexts_setOnlineUser]
    exact hw.accounts
  · unfold Registry.setOnlineUser at h
    split at h
    · exact hw.users u c' h
    · change Function.update w.registry.users accountID (some c) u = some c' at h
      by_cases hu : u = accountID
      · subst hu
        rw [Function.update_self] at h
        obtain rfl := Option.some.inj h
        exact hc
      · rw [Function.update_of_ne hu] at h
        exact hw.users u c' h

theorem justified_setAccount {τ : List Event} {w : World} {c : Nat} {accountID : Bytes}
    (hw : w.Justified τ) (hc : Claimed τ c accountID) :
    ({ w with registry :=
      w.registry.modifyCtx c fun ctx => { ctx with accountID := accountID } } : World).Justified τ := by
  refine ⟨fun c' ctx h => ?_, hw.users, hw.tasks, hw.dbTasks, hw.redisTasks⟩
  change Function.update w.registry.contexts c _ c' = some ctx at h
  by_cases hcc : c' = c
  · subst hcc
    rw [Function.update_self] at h
    obtain ⟨ctx₀, -, rfl⟩ := Option.map_eq_some_iff.mp h
    exact Or.inr hc
  · rw [Function.update_of_ne hcc] at h
    exact hw.accounts c' ctx h

theorem Did.world_justified {τ : List Event} {w w' : World} {act : Act} {acts : List Act}
    {es : List Event} (h : Did md5 w act w' acts es) (ha : act.Justified τ) (hw : w.Justified τ) :
    w'.Justified (τ ++ es) := by
  have hsub : τ ⊆ τ ++ es := List.subset_append_left _ _
  have hj := hw.mono hsub
  cases h with
  | accepted =>
    refine ⟨hj.accounts, hj.users, fun p hp => ?_, hj.dbTasks, hj.redisTasks⟩
    rcases List.mem_append.mp hp with hp | hp
    · exact hj.tasks p hp
    · rw [List.mem_singleton.mp hp]
      exact List.mem_append_right _ List.mem_cons_self
  | online => exact justified_setOnlineUser hj (Claimed.mono hsub ha)
  | account => exact justified_setAccount hj (Claimed.mono hsub ha)
  | dbQueued =>
    refine ⟨hj.accounts, hj.users, hj.tasks, fun task ht => ?_, hj.redisTasks⟩
    rcases List.mem_append.mp ht with ht | ht
    · exact hj.dbTasks task ht
    · rw [List.mem_singleton.mp ht]
      exact DbTask.Justified.mono hsub ha
  | redisQueued =>
    refine ⟨hj.accounts, hj.users, hj.tasks, hj.dbTasks, fun task ht => ?_⟩
    rcases List.mem_append.mp ht with ht | ht
    · exact hj.redisTasks task ht
    · rw [List.mem_singleton.mp ht]
      exact RedisTask.Justified.mono hsub ha
  | numbered => exact ⟨hj.accounts, hj.users, hj.tasks, hj.dbTasks, hj.redisTasks⟩
  | _ => exact hj

/-! ## 4. Whole runs -/

structure Traced {R : Nat} (s : State R) (τ : List Event) : Prop where
  world : s.world.Justified τ
  acts : Everywhere (Act.Justified τ) s
  events : ∀ e ∈ τ, e.Justified τ

theorem Traced.begin {R : Nat} {s s' : State R} {τ es : List Event} {t : Thread R} {w : World}
    {acts : List Act} (hs : Traced s τ) (h : begin s t w acts = some (s', es))
    (hw : w.Justified τ) (hacts : ∀ a ∈ acts, a.Justified τ) : Traced s' (τ ++ es) := by
  obtain ⟨-, rfl, rfl⟩ := begin_cases h
  rw [List.append_nil]
  exact ⟨hw, hs.acts.setAgenda hacts, hs.events⟩

theorem Traced.move {R : Nat} {s s' : State R} {τ es : List Event} {t : Thread R} {answer : Answer}
    (hs : Traced s τ) (h : move (exec md5) s t answer = some (s', es)) : Traced s' (τ ++ es) := by
  have hsub : τ ⊆ τ ++ es := List.subset_append_left _ _
  obtain ⟨act, acts, w, new, ht, he, rfl⟩ := move_cases h
  have hd := exec_did he
  have ha : act.Justified τ := hs.acts t act (by rw [ht]; exact List.mem_cons_self)
  obtain ⟨hnew, hes⟩ := hd.justified ha hs.world
  refine ⟨hd.world_justified ha hs.world, (hs.acts.mono fun _ h => h.mono hsub).setAgenda fun a h => ?_,
    fun e h => ?_⟩
  · rcases List.mem_append.mp h with h | h
    · exact hnew a h
    · exact (hs.acts t a (by rw [ht]; exact List.mem_cons_of_mem _ h)).mono hsub
  · rcases List.mem_append.mp h with h | h
    · exact (hs.events e h).mono hsub
    · exact hes e h

/-- The tables change in a way that claims nothing. -/
theorem Traced.registry {R : Nat} {s : State R} {τ : List Event} (hs : Traced s τ) {r : Registry}
    (hc : ∀ c ctx, r.contexts c = some ctx →
      ctx.accountID = [] ∨ s.world.registry.contexts c = some ctx)
    (hu : ∀ u c, r.users u = some c → s.world.registry.users u = some c) :
    Traced { s with world := { s.world with registry := r } } τ := by
  refine ⟨⟨fun c ctx h => ?_, fun u c h => hs.world.users u c (hu u c h), hs.world.tasks,
    hs.world.dbTasks, hs.world.redisTasks⟩, hs.acts, hs.events⟩
  rcases hc c ctx h with h | h
  · exact Or.inl h
  · exact hs.world.accounts c ctx h

theorem users_unregister {r : Registry} {fd c : Nat} {ctx : ClientContext} {u : Bytes}
    (h : (r.unregister fd ctx).users u = some c) : r.users u = some c := by
  unfold Registry.unregister at h
  split at h
  · exact h
  · rw [Registry.removeOnlineUser, if_neg ‹_›] at h
    change Function.update r.users ctx.accountID none u = some c at h
    by_cases hu : u = ctx.accountID
    · rw [hu, Function.update_self] at h
      exact absurd h (by simp)
    · rw [Function.update_of_ne hu] at h
      exact h

theorem step_traced {R : Nat} {s s' : State R} {τ es : List Event} {l : Label R} (hs : Traced s τ)
    (h : step md5 s l = some (s', es)) : Traced s' (τ ++ es) := by
  cases l with
  | accept fd =>
    rw [step] at h
    split at h
    · simp only [Option.some.injEq, Prod.mk.injEq] at h
      obtain ⟨rfl, rfl⟩ := h
      rw [List.append_nil]
      refine hs.registry (fun c ctx h => ?_) fun _ _ h => h
      change Function.update s.world.registry.contexts _ _ c = some ctx at h
      by_cases hc : c = s.world.registry.nextCtx
      · rw [hc, Function.update_self] at h
        obtain rfl := Option.some.inj h
        exact Or.inl rfl
      · rw [Function.update_of_ne hc] at h
        exact Or.inr h
    · exact absurd h (by simp)
  | disconnect fd =>
    rw [step] at h
    split at h
    · simp only [Option.some.injEq, Prod.mk.injEq] at h
      obtain ⟨rfl, rfl⟩ := h
      rw [List.append_nil]
      exact hs
    · obtain ⟨ctx, -, h⟩ := Option.map_eq_some_iff.mp h
      simp only [Prod.mk.injEq] at h
      obtain ⟨rfl, rfl⟩ := h
      rw [List.append_nil]
      refine hs.registry (fun c ctx' h => ?_) fun _ _ h => users_unregister h
      rw [contexts_unregister] at h
      exact Or.inr h
  | read e packets =>
    rw [step] at h
    split at h
    · refine hs.begin h hs.world fun a ha => ?_
      obtain ⟨p, -, rfl⟩ := List.mem_map.mp ha
      trivial
    · exact absurd h (by simp)
  | takeTask w =>
    rw [step] at h
    cases ht : s.world.tasks with
    | nil => rw [ht] at h; exact absurd h (by simp)
    | cons p rest =>
      rw [ht] at h
      have hj := hs.world
      have hmem : ∀ p' ∈ p :: rest, Event.received p' ∈ τ := fun p' h => hj.tasks p' (by rw [ht]; exact h)
      exact hs.begin h ⟨hj.accounts, hj.users, fun p' h => hmem p' (List.mem_cons_of_mem _ h),
        hj.dbTasks, hj.redisTasks⟩ (List.forall_mem_singleton.mpr (hmem p List.mem_cons_self))
  | takeDbTask i =>
    rw [step] at h
    cases ht : s.world.dbTasks with
    | nil => rw [ht] at h; exact absurd h (by simp)
    | cons task rest =>
      rw [ht] at h
      have hj := hs.world
      have hmem : ∀ task' ∈ task :: rest, task'.Justified τ :=
        fun task' h => hj.dbTasks task' (by rw [ht]; exact h)
      exact hs.begin h ⟨hj.accounts, hj.users, hj.tasks,
        fun task' h => hmem task' (List.mem_cons_of_mem _ h), hj.redisTasks⟩
        (List.forall_mem_singleton.mpr (hmem task List.mem_cons_self))
  | takeRedisTask i =>
    rw [step] at h
    cases ht : s.world.redisTasks with
    | nil => rw [ht] at h; exact absurd h (by simp)
    | cons task rest =>
      rw [ht] at h
      have hj := hs.world
      have hmem : ∀ task' ∈ task :: rest, task'.Justified τ :=
        fun task' h => hj.redisTasks task' (by rw [ht]; exact h)
      exact hs.begin h ⟨hj.accounts, hj.users, hj.tasks, hj.dbTasks,
        fun task' h => hmem task' (List.mem_cons_of_mem _ h)⟩
        (List.forall_mem_singleton.mpr (hmem task List.mem_cons_self))
  | retryScan users =>
    refine hs.begin h hs.world fun a ha => ?_
    obtain ⟨user, -, rfl⟩ := List.mem_map.mp ha
    trivial
  | move t answer => exact hs.move h

theorem traced_initial (R : Nat) (hash : UInt64) : Traced (initial R hash) [] :=
  ⟨⟨fun _ _ h => absurd h (by simp [initial]), fun _ _ h => absurd h (by simp [initial]),
    List.forall_mem_nil _, List.forall_mem_nil _, List.forall_mem_nil _⟩,
    fun _ => List.forall_mem_nil _, List.forall_mem_nil _⟩

/-- A client says that it is `ann` and asks for her friends. -/
def claimedList (e : Fin 1) (w : Fin 12) (i : Fin 16) : List (Label 1) :=
  [.accept 7, .read e [⟨0, 3, ascii "\x7b\"sender\":\"ann\"\x7d"⟩],
    .move (.reactor e) (.queued true), .takeTask w, .move (.business w) .none,
    .move (.business w) .none, .move (.business w) .none, .read e [⟨0, 11, []⟩],
    .move (.reactor e) (.queued true), .takeTask w, .move (.business w) .none,
    .move (.business w) (.queued true), .takeRedisTask i,
    .move (.redis i) (.text (ascii "her friends")), .move (.redis i) .none, .move (.redis i) .none]

end

end Requests
end EpollChat
