import EpollChat.Proof.Server.Requests

/-!
# Every packet comes to its end

Between two packets the server only works off what it has. Each act leads to acts further down
the same road, and there is a limit to how far down one can go (`Act.rank`), though not to
how many acts one act leads to: a broadcast makes as many as there are clients. So the work is
measured by a multiset of ranks, and it cannot go on for ever (`next_lt`). It cannot get
stuck either (`exec_progress`): whatever is first on an agenda can be done, as the contexts it
needs are there. The one thing that may wait for ever is `waitNextMs`, in the last millisecond a
64-bit clock can show.
-/

namespace EpollChat
namespace Requests

open Lib Machine Agenda
open Server (MSG_TYPE_ACK)

/-! ## 1. How far down the road -/

def Act.rank : Act → Nat
  | .deliver _ => 20
  | .processPacket _ => 18
  | .number _ _ _ _ => 17
  | .snapshot _ _ _ => 16
  | .lookup _ _ _ _ => 16
  | .enqueueDbTask _ => 12
  | .dbTask _ => 10
  | .checkLogin _ _ _ _ => 9
  | .addFriend _ _ _ _ => 9
  | .loginOk _ _ _ => 8
  | .enqueueRedisTask _ => 8
  | .redisTask _ => 6
  | .sendFriends _ _ _ => 5
  | .sendPending _ _ _ => 5
  | .deliverPrivate _ _ _ _ _ => 5
  | .retryUser _ => 5
  | .dispatch _ _ => 4
  | .answer _ _ _ _ => 1
  | _ => 0

/-- The ranks of the tasks in the three queues. -/
def queuedRanks (w : World) : Multiset Nat :=
  Multiset.replicate w.tasks.length 19 +
    (Multiset.replicate w.dbTasks.length 11 + Multiset.replicate w.redisTasks.length 7)

/-- A step by which the server works off what it has. -/
def Label.isWork {R : Nat} : Label R → Bool
  | .takeTask _ => true
  | .takeDbTask _ => true
  | .takeRedisTask _ => true
  | .move _ _ => true
  | _ => false

section

variable {md5 : Bytes → Bytes}

theorem rank_sendAll {ctxs : List Nat} {type : UInt16} {data : Bytes} {n : Nat} (hn : 0 < n) :
    ∀ a ∈ sendAll ctxs type data, a.rank < n := forall_mem_sendAll fun _ => hn

theorem Processed.rank {c : Nat} {ctx : ClientContext} {type : UInt16} {body : Bytes}
    {acts : List Act} {es : List Event} (h : Processed md5 c ctx body type acts es) :
    ∀ a ∈ acts, a.rank < 18 := by
  cases h with
  | _ => simp [Act.rank]

theorem Did.rank {w w' : World} {act : Act} {acts : List Act} {es : List Event}
    (h : Did md5 w act w' acts es) : ∀ a ∈ acts, a.rank < act.rank := by
  cases h with
  | processed hctx h => exact h.rank
  | answered => exact forall_mem_guarded (by simp [Act.rank])
  | numbered =>
    refine List.forall_mem_cons.mpr ⟨?_, List.forall_mem_singleton.mpr (by simp [Act.rank])⟩
    split
    · simp [Act.rank]
    · simp [Act.rank]
  | snapshot =>
    exact List.forall_mem_append.mpr
      ⟨rank_sendAll (by simp [Act.rank]), List.forall_mem_singleton.mpr (by simp [Act.rank])⟩
  | @dbRefused task => cases task <;> simp [refusedDbTask, Act.rank]
  | @redisRefused task => cases task <;> simp [refusedRedisTask, Act.rank]
  | loginTask => exact forall_mem_guarded (by simp [Act.rank])
  | loggedIn => exact forall_mem_guarded (by simp [Act.rank])
  | friendsSent => exact forall_mem_guarded (by simp [Act.rank])
  | pendingSent => exact forall_mem_guarded (by simp [Act.rank])
  | dispatched =>
    intro a ha
    obtain ⟨msg, -, rfl⟩ := List.mem_map.mp ha
    simp [Act.rank]
  | delivered =>
    exact List.forall_mem_cons.mpr ⟨by simp [Act.rank], rank_sendAll (by simp [Act.rank])⟩
  | _ => simp [Act.rank]

theorem replicate_length_append {α : Type} (l : List α) (a : α) (n : Nat) :
    Multiset.replicate (l ++ [a]).length n = Multiset.replicate l.length n + {n} := by
  rw [List.length_append, List.length_singleton, Multiset.replicate_add, Multiset.replicate_one]

/-- What an act queues is of lower rank too. -/
theorem Did.queuedRanks {w w' : World} {act : Act} {acts : List Act} {es : List Event}
    (h : Did md5 w act w' acts es) :
    ∃ added, queuedRanks w' = queuedRanks w + added ∧ ∀ r ∈ added, r < act.rank := by
  cases h with
  | accepted =>
    refine ⟨{19}, ?_, by simp [Act.rank]⟩
    rw [Requests.queuedRanks, Requests.queuedRanks, replicate_length_append]
    ac_rfl
  | dbQueued =>
    refine ⟨{11}, ?_, by simp [Act.rank]⟩
    rw [Requests.queuedRanks, Requests.queuedRanks, replicate_length_append]
    ac_rfl
  | redisQueued =>
    refine ⟨{7}, ?_, by simp [Act.rank]⟩
    rw [Requests.queuedRanks, Requests.queuedRanks, replicate_length_append]
    ac_rfl
  | _ => exact ⟨0, (add_zero _).symm, by simp⟩

/-- **Work gets less with every step.** -/
theorem next_lt {R : Nat} {s s' : State R} {l : Label R} {es : List Event} (hl : l.isWork = true)
    (h : step md5 s l = some (s', es)) :
    (work queuedRanks Act.rank s').IsDershowitzMannaLT (work queuedRanks Act.rank s) := by
  cases l with
  | takeTask w =>
    rw [step] at h
    cases ht : s.world.tasks with
    | nil => rw [ht] at h; exact absurd h (by simp)
    | cons p rest =>
      rw [ht] at h
      refine work_begin (n := 19) h ?_ (by simp [Act.rank])
      rw [queuedRanks, queuedRanks, ht, List.length_cons, Multiset.replicate_succ,
        ← Multiset.singleton_add]
      ac_rfl
  | takeDbTask i =>
    rw [step] at h
    cases ht : s.world.dbTasks with
    | nil => rw [ht] at h; exact absurd h (by simp)
    | cons task rest =>
      rw [ht] at h
      refine work_begin (n := 11) h ?_ (by simp [Act.rank])
      rw [queuedRanks, queuedRanks, ht, List.length_cons, Multiset.replicate_succ,
        ← Multiset.singleton_add]
      ac_rfl
  | takeRedisTask i =>
    rw [step] at h
    cases ht : s.world.redisTasks with
    | nil => rw [ht] at h; exact absurd h (by simp)
    | cons task rest =>
      rw [ht] at h
      refine work_begin (n := 7) h ?_ (by simp [Act.rank])
      rw [queuedRanks, queuedRanks, ht, List.length_cons, Multiset.replicate_succ,
        ← Multiset.singleton_add]
      ac_rfl
  | move t answer =>
    exact work_move h fun act w new he => ⟨(exec_did he).rank, (exec_did he).queuedRanks⟩
  | accept => exact absurd hl (by simp [Label.isWork])
  | disconnect => exact absurd hl (by simp [Label.isWork])
  | read => exact absurd hl (by simp [Label.isWork])
  | retryScan => exact absurd hl (by simp [Label.isWork])

/-! ## 2. Nothing is stuck -/

/-- A context that an act needs and has not looked up yet. -/
def Act.subject : Act → Option Nat
  | .deliver p => some p.ctx
  | .processPacket p => some p.ctx
  | .number c _ _ _ => some c
  | .lookup c _ _ _ => some c
  | _ => none

/-- The context is there. -/
def Known (w : World) (o : Option Nat) : Prop := ∀ c, o = some c → ∃ fd, w.fdOf c = some fd

theorem known_none (w : World) : Known w none := fun c h => absurd h (by simp)

theorem Known.keep {w w' : World} (hk : Keeps w w') {o : Option Nat} (h : Known w o) : Known w' o := by
  intro c hc
  obtain ⟨fd, hfd⟩ := h c hc
  exact ⟨fd, hk c fd hfd⟩

structure Present {R : Nat} (s : State R) : Prop where
  acts : Everywhere (fun act => Known s.world act.subject) s
  tasks : ∀ p ∈ s.world.tasks, Known s.world (some p.ctx)

theorem Processed.subject {c : Nat} {ctx : ClientContext} {type : UInt16} {body : Bytes}
    {acts : List Act} {es : List Event} (h : Processed md5 c ctx body type acts es) :
    ∀ a ∈ acts, a.subject = none ∨ a.subject = some c := by
  cases h with
  | _ => simp [Act.subject]

/-- What an act leads to needs no other context than the act itself. -/
theorem Did.subject {w w' : World} {act : Act} {acts : List Act} {es : List Event}
    (h : Did md5 w act w' acts es) : ∀ a ∈ acts, a.subject = none ∨ a.subject = act.subject := by
  cases h with
  | processed hctx h => exact h.subject
  | numbered =>
    refine List.forall_mem_cons.mpr ⟨?_, List.forall_mem_singleton.mpr (Or.inl rfl)⟩
    split
    · exact Or.inl rfl
    · exact Or.inr rfl
  | @dbRefused task => cases task <;> simp [refusedDbTask, Act.subject]
  | @redisRefused task => cases task <;> simp [refusedRedisTask, Act.subject]
  | dispatched =>
    intro a ha
    obtain ⟨msg, -, rfl⟩ := List.mem_map.mp ha
    exact Or.inl rfl
  | snapshot =>
    exact List.forall_mem_append.mpr
      ⟨forall_mem_sendAll fun _ => Or.inl rfl, List.forall_mem_singleton.mpr (Or.inl rfl)⟩
  | delivered =>
    exact List.forall_mem_cons.mpr ⟨Or.inl rfl, forall_mem_sendAll fun _ => Or.inl rfl⟩
  | answered => exact forall_mem_guarded (by simp [Act.subject])
  | loginTask => exact forall_mem_guarded (by simp [Act.subject])
  | loggedIn => exact forall_mem_guarded (by simp [Act.subject])
  | friendsSent => exact forall_mem_guarded (by simp [Act.subject])
  | pendingSent => exact forall_mem_guarded (by simp [Act.subject])
  | _ => simp [Act.subject]

theorem Did.known {w w' : World} {act : Act} {acts : List Act} {es : List Event}
    (h : Did md5 w act w' acts es) (hc : Known w act.subject) : ∀ a ∈ acts, Known w a.subject := by
  intro a ha
  rcases h.subject a ha with hs | hs
  · rw [hs]
    exact known_none w
  · rw [hs]
    exact hc

theorem Did.tasks {w w' : World} {act : Act} {acts : List Act} {es : List Event}
    (h : Did md5 w act w' acts es) (hc : Known w act.subject) :
    ∀ p ∈ w'.tasks, p ∈ w.tasks ∨ Known w (some p.ctx) := by
  cases h with
  | accepted =>
    intro p hp
    rcases List.mem_append.mp hp with hp | hp
    · exact Or.inl hp
    · rw [List.mem_singleton.mp hp]
      exact Or.inr hc
  | _ => exact fun p hp => Or.inl hp

theorem Present.begin {R : Nat} {s s' : State R} {t : Thread R} {w : World} {acts : List Act}
    {es : List Event} (hs : Present s) (h : begin s t w acts = some (s', es))
    (hr : w.registry = s.world.registry) (htasks : ∀ p ∈ w.tasks, p ∈ s.world.tasks)
    (hacts : ∀ a ∈ acts, Known s.world a.subject) : Present s' := by
  have hk : Keeps s.world w := keeps_of_contexts (by rw [hr])
  obtain ⟨-, rfl, -⟩ := begin_cases h
  exact ⟨(hs.acts.mono fun _ h => h.keep hk).setAgenda fun a ha => (hacts a ha).keep hk,
    fun p hp => (hs.tasks p (htasks p hp)).keep hk⟩

theorem Present.registry {R : Nat} {s : State R} (hs : Present s) {r : Registry}
    (hk : Keeps s.world { s.world with registry := r }) :
    Present { s with world := { s.world with registry := r } } :=
  ⟨hs.acts.mono fun _ h => h.keep hk, fun p hp => (hs.tasks p hp).keep hk⟩

theorem Present.move {R : Nat} {s s' : State R} {t : Thread R} {answer : Answer} {es : List Event}
    (hs : Present s) (h : move (exec md5) s t answer = some (s', es)) : Present s' := by
  obtain ⟨act, acts, w, new, ht, he, rfl⟩ := move_cases h
  have hd := exec_did he
  have hc : Known s.world act.subject := hs.acts t act (by rw [ht]; exact List.mem_cons_self)
  refine ⟨(hs.acts.mono fun _ h => h.keep hd.keeps).setAgenda fun a ha => ?_, fun p hp => ?_⟩
  · rcases List.mem_append.mp ha with ha | ha
    · exact (hd.known hc a ha).keep hd.keeps
    · exact (hs.acts t a (by rw [ht]; exact List.mem_cons_of_mem _ ha)).keep hd.keeps
  · rcases hd.tasks hc p hp with hp | hp
    · exact (hs.tasks p hp).keep hd.keeps
    · exact hp.keep hd.keeps

theorem step_present {R : Nat} {s s' : State R} {l : Label R} {es : List Event} (hsound : Sound s)
    (hs : Present s) (h : step md5 s l = some (s', es)) : Present s' := by
  have hnone : Known s.world none := known_none _
  cases l with
  | accept fd =>
    rw [step] at h
    split at h
    · simp only [Option.some.injEq, Prod.mk.injEq] at h
      obtain ⟨rfl, rfl⟩ := h
      exact hs.registry (keeps_accept fd hsound.fresh)
    · exact absurd h (by simp)
  | disconnect fd =>
    rw [step] at h
    split at h
    · simp only [Option.some.injEq, Prod.mk.injEq] at h
      obtain ⟨rfl, rfl⟩ := h
      exact hs
    · obtain ⟨ctx, -, h⟩ := Option.map_eq_some_iff.mp h
      simp only [Prod.mk.injEq] at h
      obtain ⟨rfl, rfl⟩ := h
      exact hs.registry (keeps_of_contexts (contexts_unregister _ fd ctx))
  | read e packets =>
    rw [step] at h
    split at h
    · rename_i hpackets
      refine hs.begin h rfl (fun _ h => h) fun a ha => ?_
      obtain ⟨p, hp, rfl⟩ := List.mem_map.mp ha
      obtain ⟨ctx, hctx⟩ := Option.isSome_iff_exists.mp (hpackets p hp)
      rintro c hc
      cases hc
      exact ⟨ctx.fd, World.fdOf_eq hctx⟩
    · exact absurd h (by simp)
  | takeTask w =>
    rw [step] at h
    cases ht : s.world.tasks with
    | nil => rw [ht] at h; exact absurd h (by simp)
    | cons p rest =>
      rw [ht] at h
      exact hs.begin h rfl (fun p' hp' => by rw [ht]; exact List.mem_cons_of_mem _ hp')
        (List.forall_mem_singleton.mpr (hs.tasks p (by rw [ht]; exact List.mem_cons_self)))
  | takeDbTask i =>
    rw [step] at h
    cases ht : s.world.dbTasks with
    | nil => rw [ht] at h; exact absurd h (by simp)
    | cons task rest =>
      rw [ht] at h
      exact hs.begin h rfl (fun _ h => h) (List.forall_mem_singleton.mpr hnone)
  | takeRedisTask i =>
    rw [step] at h
    cases ht : s.world.redisTasks with
    | nil => rw [ht] at h; exact absurd h (by simp)
    | cons task rest =>
      rw [ht] at h
      exact hs.begin h rfl (fun _ h => h) (List.forall_mem_singleton.mpr hnone)
  | retryScan users =>
    refine hs.begin h rfl (fun _ h => h) fun a ha => ?_
    obtain ⟨user, -, rfl⟩ := List.mem_map.mp ha
    exact hnone
  | move t answer => exact hs.move h

/-- The last id was not taken in the last millisecond of a 64-bit clock. -/
def Ticking (w : World) : Prop := w.msgIdGen.m_lastTs.toNat + 1 < 2 ^ 64

theorem number_isSome {w : World} (ht : Ticking w) (c : Nat) (senderID target content ts : Bytes) :
    ∃ o, number w c senderID target content [w.msgIdGen.m_lastTs + 1] ts = some o := by
  have hnext : (w.msgIdGen.m_lastTs + 1).toNat = w.msgIdGen.m_lastTs.toNat + 1 := by
    rw [UInt64.toNat_add]
    exact Nat.mod_eq_of_lt ht
  have hlater : ¬ w.msgIdGen.m_lastTs + 1 < w.msgIdGen.m_lastTs := by
    rw [UInt64.lt_iff_toNat_lt]
    omega
  have hne : ¬ w.msgIdGen.m_lastTs + 1 = w.msgIdGen.m_lastTs := by
    rw [← UInt64.toNat_inj]
    omega
  rw [number, SnowflakeIdGenerator.nextId, SnowflakeIdGenerator.advance]
  simp only [if_neg hlater, if_neg hne]
  exact ⟨_, rfl⟩

theorem Captures.exists_ctx {w : World} {c fd : Nat} (h : Captures w (some (c, fd))) :
    ∃ ctx, w.registry.contexts c = some ctx := by
  obtain ⟨ctx, hctx, -⟩ := Option.map_eq_some_iff.mp (h (c, fd) rfl)
  exact ⟨ctx, hctx⟩

theorem Known.exists_ctx {w : World} {c : Nat} (h : Known w (some c)) :
    ∃ ctx, w.registry.contexts c = some ctx := by
  obtain ⟨fd, hfd⟩ := h c rfl
  obtain ⟨ctx, hctx, -⟩ := Option.map_eq_some_iff.mp hfd
  exact ⟨ctx, hctx⟩

/-- What looks a context up goes on if it is there. -/
theorem exists_map {w : World} {c : Nat} {ctx : ClientContext} {f : ClientContext → Outcome}
    (hctx : w.registry.contexts c = some ctx) : ∃ o, (w.registry.contexts c).map f = some o :=
  ⟨f ctx, by rw [hctx]; rfl⟩

variable (md5) in
/-- **Whatever is first on an agenda can be done.** -/
theorem exec_progress {w : World} {act : Act} (hc : Captures w act.captured)
    (hk : Known w act.subject) (ht : Ticking w) : ∃ answer o, exec md5 w act answer = some o := by
  cases act with
  | deliver p => exact ⟨.queued true, _, rfl⟩
  | processPacket p =>
    obtain ⟨ctx, hctx⟩ := hk.exists_ctx
    exact ⟨.none, exists_map hctx⟩
  | sendPacket => exact ⟨.none, _, rfl⟩
  | answer =>
    obtain ⟨ctx, hctx⟩ := hc.exists_ctx
    exact ⟨.none, exists_map hctx⟩
  | setOnlineUser => exact ⟨.none, _, rfl⟩
  | setAccount => exact ⟨.none, _, rfl⟩
  | number c senderID target content => exact ⟨.clock [w.msgIdGen.m_lastTs + 1] [], number_isSome ht ..⟩
  | snapshot c enrichedBody ackBody =>
    exact ⟨.targets [], (w, [.sendPacket c MSG_TYPE_ACK ackBody], [.broadcast [] enrichedBody]),
      by rw [exec, if_pos fun _ h => absurd h List.not_mem_nil]; rfl⟩
  | lookup =>
    obtain ⟨ctx, hctx⟩ := hk.exists_ctx
    exact ⟨.none, exists_map hctx⟩
  | enqueueChatLog => exact ⟨.none, _, rfl⟩
  | enqueueDbTask => exact ⟨.queued true, _, rfl⟩
  | enqueueRedisTask => exact ⟨.queued true, _, rfl⟩
  | dbTask task =>
    cases task with
    | login =>
      obtain ⟨ctx, hctx⟩ := hc.exists_ctx
      exact ⟨.none, exists_map hctx⟩
    | history => exact ⟨.failed, _, rfl⟩
    | addFriend => exact ⟨.checked true, _, rfl⟩
  | redisTask task =>
    cases task with
    | privateMessage => exact ⟨.checked true, _, rfl⟩
    | ack => exact ⟨.none, _, rfl⟩
    | invalidate => exact ⟨.none, _, rfl⟩
    | friendList => exact ⟨.text [], _, rfl⟩
  | checkLogin => exact ⟨.checked true, _, rfl⟩
  | loginOk =>
    obtain ⟨ctx, hctx⟩ := hc.exists_ctx
    exact ⟨.none, exists_map hctx⟩
  | sendFriends =>
    obtain ⟨ctx, hctx⟩ := hc.exists_ctx
    exact ⟨.text [], exists_map hctx⟩
  | sendPending =>
    obtain ⟨ctx, hctx⟩ := hc.exists_ctx
    exact ⟨.none, exists_map hctx⟩
  | dispatch => exact ⟨.messages [], _, rfl⟩
  | addFriend => exact ⟨.checked true, _, rfl⟩
  | deliverPrivate => exact ⟨.none, _, rfl⟩
  | retryUser => exact ⟨.none, _, rfl⟩

/-! ## 3. The end -/

theorem begin_isSome {R : Nat} {s : State R} {t : Thread R} (h : s.agenda t = []) (w : World)
    (acts : List Act) : ∃ p : State R × List Event, begin s t w acts = some p := by
  unfold begin
  rw [h]
  exact ⟨_, rfl⟩

theorem move_isSome {R : Nat} {s : State R} {t : Thread R} {act : Act} {acts : List Act}
    {answer : Answer} {o : Outcome} (h : s.agenda t = act :: acts)
    (ho : exec md5 s.world act answer = some o) : ∃ p, move (exec md5) s t answer = some p := by
  unfold move
  rw [h]
  dsimp only
  rw [ho]
  exact ⟨_, rfl⟩

/-- If no step is left that works anything off, nothing is left to be worked off. -/
theorem quiet_of_stuck {R : Nat} {s : State R} (hsound : Sound s) (hs : Present s)
    (ht : Ticking s.world) (hstuck : ∀ l, l.isWork = true → step md5 s l = none) : Quiet s := by
  have hidle : ∀ t, s.agenda t = [] := by
    intro t
    cases ha : s.agenda t with
    | nil => rfl
    | cons act acts =>
      have hmem : act ∈ s.agenda t := by rw [ha]; exact List.mem_cons_self
      obtain ⟨answer, o, ho⟩ :=
        exec_progress md5 (hsound.acts t act hmem) (hs.acts t act hmem) ht
      obtain ⟨p, hp⟩ := move_isSome ha ho
      have := hstuck (.move t answer) rfl
      rw [step, hp] at this
      exact absurd this (by simp)
  refine ⟨hidle, ?_, ?_, ?_⟩
  · cases hq : s.world.tasks with
    | nil => rfl
    | cons p rest =>
      have := hstuck (.takeTask 0) rfl
      rw [step, hq] at this
      obtain ⟨s', hs'⟩ := begin_isSome (hidle (.business 0)) { s.world with tasks := rest }
        [.processPacket p]
      exact absurd (hs'.symm.trans this) (by simp)
  · cases hq : s.world.dbTasks with
    | nil => rfl
    | cons task rest =>
      have := hstuck (.takeDbTask 0) rfl
      rw [step, hq] at this
      obtain ⟨s', hs'⟩ := begin_isSome (hidle (.db 0)) { s.world with dbTasks := rest } [.dbTask task]
      exact absurd (hs'.symm.trans this) (by simp)
  · cases hq : s.world.redisTasks with
    | nil => rfl
    | cons task rest =>
      have := hstuck (.takeRedisTask 0) rfl
      rw [step, hq] at this
      obtain ⟨s', hs'⟩ := begin_isSome (hidle (.redis 0)) { s.world with redisTasks := rest }
        [.redisTask task]
      exact absurd (hs'.symm.trans this) (by simp)

theorem present_initial (R : Nat) (hash : UInt64) : Present (initial R hash) :=
  ⟨fun _ => List.forall_mem_nil _, List.forall_mem_nil _⟩

end

end Requests
end EpollChat
