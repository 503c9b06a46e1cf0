import EpollChat.Proof.Ids.Snowflake
import EpollChat.Server.Conversation

/-!
# The order of a conversation

Two packets of one connection are two tasks. A worker that has taken the first may rest while
another takes the second, its id and its place in the Redis queue; and of two Redis workers the
later one may be the first to send (`overtaken_in_a_pool`). There is no lock, number or
affinity that would keep them in order.

What there is are two queues that are first in, first out. So the order is kept as long as the
two packets do not meet in a pool: the second is taken from a queue only when no worker of that
pool has the first in hand (`Apart`). `conversation_in_order` follows the pair from one place to
the next: once the second is out of a queue, the first is behind it nowhere.
-/

namespace EpollChat
namespace Conversation

open Lib Machine SnowflakeIdGenerator

/-! ## 1. The moves -/

/-- What a step can do, label by label. -/
inductive Move (s : State) : Label → State → List Event → Prop where
  | accept {conn body} : Move s (.arrive conn body true)
      { s with arrivals := s.arrivals + 1, tasks := s.tasks ++ [⟨s.arrivals, conn, body⟩] }
      [.accepted ⟨s.arrivals, conn, body⟩]
  | refuse {conn body} : Move s (.arrive conn body false) { s with arrivals := s.arrivals + 1 }
      [.refused ⟨s.arrivals, conn, body⟩]
  | setOnline {user ctx} : Move s (.setOnline user ctx)
      { s with online := Function.update s.online user ctx } []
  | take {w p rest} (hw : s.biz w = .waiting) (ht : s.tasks = p :: rest) :
      Move s (.take w) (setBiz { s with tasks := rest } w (.chat p)) []
  | number {w p clock ts g e body} (hw : s.biz w = .chat p)
      (hg : s.msgIdGen.nextId clock = some (g, [e])) :
      Move s (.number w clock ts) (setBiz { s with msgIdGen := g } w (.numbered p e.id body))
        [.numbered p e.id]
  | broadcast {w p msgId body} (hw : s.biz w = .numbered p msgId body) :
      Move s (.lookup w) (setBiz s w .waiting) [.broadcast p msgId]
  | route {w p msgId body ctx} (hw : s.biz w = .numbered p msgId body) :
      Move s (.lookup w) (setBiz s w (.routed ⟨p, msgId, body, ctx⟩)) []
  | queue {w t} (hw : s.biz w = .routed t) :
      Move s (.queue w true) (setBiz { s with redisTasks := s.redisTasks ++ [t] } w .waiting) []
  | drop {w t} (hw : s.biz w = .routed t) : Move s (.queue w false) (setBiz s w .waiting) []
  | takeTask {v t rest} (hv : s.redis v = .waiting) (ht : s.redisTasks = t :: rest) :
      Move s (.takeTask v) (setRedis { s with redisTasks := rest } v (.storing t)) []
  | store {v t stored} (hv : s.redis v = .storing t) :
      Move s (.store v stored) (setRedis s v (.acking t)) [.stored t]
  | giveUp {v t stored} (hv : s.redis v = .storing t) :
      Move s (.store v stored) (setRedis s v .waiting) []
  | ack {v t valid} (hv : s.redis v = .acking t) :
      Move s (.ack v valid) (setRedis s v (.sending t)) (if valid then [.acked t] else [])
  | send {v t queued} (hv : s.redis v = .sending t) (hctx : t.targetCtx.isSome = true) :
      Move s (.send v queued) (setRedis s v .waiting) [.sent t queued]
  | offline {v t queued} (hv : s.redis v = .sending t) (hctx : t.targetCtx.isSome = false) :
      Move s (.send v queued) (setRedis s v .waiting) []

theorem move_of_step {s s' : State} {l : Label} {es : List Event} (h : step s l = some (s', es)) :
    Move s l s' es := by
  cases l with
  | arrive conn body accepted =>
    cases accepted with
    | true =>
      obtain ⟨rfl, rfl⟩ := Prod.mk.inj (Option.some.inj h)
      exact .accept
    | false =>
      obtain ⟨rfl, rfl⟩ := Prod.mk.inj (Option.some.inj h)
      exact .refuse
  | setOnline user ctx =>
    obtain ⟨rfl, rfl⟩ := Prod.mk.inj (Option.some.inj h)
    exact .setOnline
  | take w =>
    simp only [step] at h
    split at h
    · next hw ht =>
      obtain ⟨rfl, rfl⟩ := Prod.mk.inj (Option.some.inj h)
      exact .take hw ht
    · exact absurd h (by simp)
  | number w clock ts =>
    simp only [step] at h
    split at h
    · next hw =>
      unfold number at h
      split at h
      · next hg =>
        obtain ⟨rfl, rfl⟩ := Prod.mk.inj (Option.some.inj h)
        exact .number hw hg
      · exact absurd h (by simp)
    · exact absurd h (by simp)
  | lookup w =>
    simp only [step] at h
    split at h
    · next hw =>
      unfold lookup at h
      split at h
      · obtain ⟨rfl, rfl⟩ := Prod.mk.inj (Option.some.inj h)
        exact .broadcast hw
      · obtain ⟨rfl, rfl⟩ := Prod.mk.inj (Option.some.inj h)
        exact .route hw
    · exact absurd h (by simp)
  | queue w accepted =>
    simp only [step] at h
    split at h
    · next hw =>
      obtain ⟨rfl, rfl⟩ := Prod.mk.inj (Option.some.inj h)
      cases accepted with
      | true => exact .queue hw
      | false => exact .drop hw
    · exact absurd h (by simp)
  | takeTask v =>
    simp only [step] at h
    split at h
    · next hv ht =>
      obtain ⟨rfl, rfl⟩ := Prod.mk.inj (Option.some.inj h)
      exact .takeTask hv ht
    · exact absurd h (by simp)
  | store v stored =>
    simp only [step] at h
    split at h
    · next hv =>
      unfold store at h
      split at h
      · obtain ⟨rfl, rfl⟩ := Prod.mk.inj (Option.some.inj h)
        exact .store hv
      · obtain ⟨rfl, rfl⟩ := Prod.mk.inj (Option.some.inj h)
        exact .giveUp hv
    · exact absurd h (by simp)
  | ack v valid =>
    simp only [step] at h
    split at h
    · next hv =>
      obtain ⟨rfl, rfl⟩ := Prod.mk.inj (Option.some.inj h)
      exact .ack hv
    · exact absurd h (by simp)
  | send v queued =>
    simp only [step] at h
    split at h
    · next t hv =>
      cases hctx : t.targetCtx.isSome with
      | true =>
        rw [send, if_pos hctx] at h
        obtain ⟨rfl, rfl⟩ := Prod.mk.inj (Option.some.inj h)
        exact .send hv hctx
      | false =>
        rw [send, if_neg (by simp [hctx])] at h
        obtain ⟨rfl, rfl⟩ := Prod.mk.inj (Option.some.inj h)
        exact .offline hv hctx
    · exact absurd h (by simp)

/-! ## 2. Places -/

/-- The packet a business worker has in hand. -/
def BizPc.packet : BizPc → Option Packet
  | .waiting => none
  | .chat p => some p
  | .numbered p _ _ => some p
  | .routed t => some t.packet

/-- The task a Redis worker has in hand. -/
def RedisPc.task : RedisPc → Option Task
  | .waiting => none
  | .storing t => some t
  | .acking t => some t
  | .sending t => some t

def InBiz (s : State) (p : Packet) : Prop := ∃ w, (s.biz w).packet = some p

def InQueue (s : State) (p : Packet) : Prop := ∃ t ∈ s.redisTasks, t.packet = p

def InRedis (s : State) (p : Packet) : Prop := ∃ v t, (s.redis v).task = some t ∧ t.packet = p

def Numbered (τ : List Event) (p : Packet) : Prop := ∃ msgId, .numbered p msgId ∈ τ

def Sent (τ : List Event) (p : Packet) : Prop := ∃ t queued, .sent t queued ∈ τ ∧ t.packet = p

/-- The packet has been taken from the business queue. -/
def Taken (s : State) (τ : List Event) (p : Packet) : Prop := InBiz s p ∨ Numbered τ p

theorem numbered_append {τ es : List Event} {p : Packet} :
    Numbered (τ ++ es) p ↔ Numbered τ p ∨ Numbered es p := by
  simp only [Numbered, List.mem_append, exists_or]

theorem sent_append {τ es : List Event} {p : Packet} :
    Sent (τ ++ es) p ↔ Sent τ p ∨ Sent es p := by
  simp only [Sent, List.mem_append, or_and_right, exists_or]

theorem inBiz_setBiz {s : State} {w : Fin businessThreads} {pc : BizPc} {p : Packet}
    (h : InBiz (setBiz s w pc) p) : pc.packet = some p ∨ InBiz s p := by
  obtain ⟨u, hu⟩ := h
  simp only [setBiz] at hu
  by_cases huw : u = w
  · rw [huw, Function.update_self] at hu
    exact Or.inl hu
  · rw [Function.update_of_ne huw] at hu
    exact Or.inr ⟨u, hu⟩

/-- A worker that goes on with its packet, or is done with it. -/
theorem inBiz_of_setBiz {s : State} {w : Fin businessThreads} {pc : BizPc} {p : Packet}
    (hpc : pc.packet = none ∨ pc.packet = (s.biz w).packet) (h : InBiz (setBiz s w pc) p) :
    InBiz s p := by
  rcases inBiz_setBiz h with hp | h
  · rcases hpc with hpc | hpc
    · exact absurd (hpc.symm.trans hp) (by simp)
    · exact ⟨w, hpc.symm.trans hp⟩
  · exact h

theorem task_setRedis {s : State} {v u : Fin redisThreads} {pc : RedisPc} {t : Task}
    (h : ((setRedis s v pc).redis u).task = some t) :
    pc.task = some t ∨ (s.redis u).task = some t := by
  simp only [setRedis] at h
  by_cases huv : u = v
  · rw [huv, Function.update_self] at h
    exact Or.inl h
  · rw [Function.update_of_ne huv] at h
    exact Or.inr h

theorem inRedis_setRedis {s : State} {v : Fin redisThreads} {pc : RedisPc} {p : Packet}
    (h : InRedis (setRedis s v pc) p) : pc.task.map Task.packet = some p ∨ InRedis s p := by
  obtain ⟨u, t, ht, rfl⟩ := h
  rcases task_setRedis ht with ht | ht
  · rw [ht]
    exact Or.inl rfl
  · exact Or.inr ⟨u, t, ht, rfl⟩

theorem task_of_setRedis {s : State} {v u : Fin redisThreads} {pc : RedisPc} {t : Task}
    (hpc : pc.task = none ∨ pc.task = (s.redis v).task)
    (h : ((setRedis s v pc).redis u).task = some t) : ∃ u', (s.redis u').task = some t := by
  rcases task_setRedis h with ht | ht
  · rcases hpc with hpc | hpc
    · exact absurd (hpc.symm.trans ht) (by simp)
    · exact ⟨v, hpc.symm.trans ht⟩
  · exact ⟨u, ht⟩

theorem inRedis_of_setRedis {s : State} {v : Fin redisThreads} {pc : RedisPc} {p : Packet}
    (hpc : pc.task = none ∨ pc.task = (s.redis v).task) (h : InRedis (setRedis s v pc) p) :
    InRedis s p := by
  obtain ⟨u, t, ht, rfl⟩ := h
  obtain ⟨u', hu'⟩ := task_of_setRedis hpc ht
  exact ⟨u', t, hu', rfl⟩

/-! Who emits what. -/

theorem Move.biz_of_numbered {s s' : State} {l : Label} {es : List Event} {p : Packet} {msgId : UInt64}
    (hm : Move s l s' es) (he : .numbered p msgId ∈ es) : ∃ w, s.biz w = .chat p := by
  cases hm with
  | number hw hg =>
    obtain ⟨rfl, -⟩ := Event.numbered.inj (List.mem_singleton.mp he)
    exact ⟨_, hw⟩
  | ack hv =>
    split at he
    · exact absurd he (by simp)
    · exact absurd he (by simp)
  | _ => exact absurd he (by simp)

theorem Move.redis_of_stored {s s' : State} {l : Label} {es : List Event} {t : Task}
    (hm : Move s l s' es) (he : .stored t ∈ es) :
    ∃ v, s.redis v = .storing t ∧ s' = setRedis s v (.acking t) := by
  cases hm with
  | store hv =>
    obtain rfl := Event.stored.inj (List.mem_singleton.mp he)
    exact ⟨_, hv, rfl⟩
  | ack hv =>
    split at he
    · exact absurd he (by simp)
    · exact absurd he (by simp)
  | _ => exact absurd he (by simp)

theorem Move.redis_of_sent {s s' : State} {l : Label} {es : List Event} {t : Task} {queued : Bool}
    (hm : Move s l s' es) (he : .sent t queued ∈ es) : ∃ v, s.redis v = .sending t := by
  cases hm with
  | send hv hctx =>
    obtain ⟨rfl, -⟩ := Event.sent.inj (List.mem_singleton.mp he)
    exact ⟨_, hv⟩
  | ack hv =>
    split at he
    · exact absurd he (by simp)
    · exact absurd he (by simp)
  | _ => exact absurd he (by simp)

theorem Move.inBiz_of_numbered {s s' : State} {l : Label} {es : List Event} {p : Packet}
    (hm : Move s l s' es) (h : Numbered es p) : InBiz s p := by
  obtain ⟨msgId, he⟩ := h
  obtain ⟨w, hw⟩ := hm.biz_of_numbered he
  exact ⟨w, by rw [hw]; rfl⟩

theorem Move.inRedis_of_sent {s s' : State} {l : Label} {es : List Event} {p : Packet}
    (hm : Move s l s' es) (h : Sent es p) : InRedis s p := by
  obtain ⟨t, queued, he, rfl⟩ := h
  obtain ⟨v, hv⟩ := hm.redis_of_sent he
  exact ⟨v, t, by rw [hv]; rfl, rfl⟩

/-! ## 3. Ids on their way -/

/-- The id a business worker has for its packet. -/
def BizPc.named : BizPc → Option (Packet × UInt64)
  | .waiting => none
  | .chat _ => none
  | .numbered p msgId _ => some (p, msgId)
  | .routed t => some (t.packet, t.msgId)

/-- Somebody has the packet with this id. -/
inductive Carried (s : State) (p : Packet) (msgId : UInt64) : Prop where
  | biz {w} (h : (s.biz w).named = some (p, msgId))
  | queue {t} (h : t ∈ s.redisTasks) (hp : t.packet = p) (hid : t.msgId = msgId)
  | redis {v t} (h : (s.redis v).task = some t) (hp : t.packet = p) (hid : t.msgId = msgId)

theorem named_setBiz {s : State} {w u : Fin businessThreads} {pc : BizPc} {x : Packet × UInt64}
    (h : ((setBiz s w pc).biz u).named = some x) : pc.named = some x ∨ (s.biz u).named = some x := by
  simp only [setBiz] at h
  by_cases huw : u = w
  · rw [huw, Function.update_self] at h
    exact Or.inl h
  · rw [Function.update_of_ne huw] at h
    exact Or.inr h

/-- The rest of the state does not matter. -/
theorem Carried.of_eq {s s' : State} {p : Packet} {msgId : UInt64} (h : Carried s' p msgId)
    (hb : s'.biz = s.biz) (hq : s'.redisTasks = s.redisTasks) (hr : s'.redis = s.redis) :
    Carried s p msgId := by
  cases h with
  | biz h => exact .biz (hb ▸ h)
  | queue h hp hid => exact .queue (hq ▸ h) hp hid
  | redis h hp hid => exact .redis (hr ▸ h) hp hid

/-- A step of a business worker that leaves the Redis queue as it is. -/
theorem Carried.setBiz {s : State} {w : Fin businessThreads} {pc : BizPc} {p : Packet}
    {msgId : UInt64} (h : Carried (setBiz s w pc) p msgId) :
    pc.named = some (p, msgId) ∨ Carried s p msgId := by
  cases h with
  | biz h => exact (named_setBiz h).imp_right .biz
  | queue h hp hid => exact Or.inr (.queue h hp hid)
  | redis h hp hid => exact Or.inr (.redis h hp hid)

/-- A step of a Redis worker that goes on with its task, or is done with it. -/
theorem Carried.setRedis {s : State} {v : Fin redisThreads} {pc : RedisPc} {p : Packet}
    {msgId : UInt64} (hpc : pc.task = none ∨ pc.task = (s.redis v).task)
    (h : Carried (setRedis s v pc) p msgId) : Carried s p msgId := by
  cases h with
  | biz h => exact .biz h
  | queue h hp hid => exact .queue h hp hid
  | redis h hp hid =>
    obtain ⟨u, hu⟩ := task_of_setRedis hpc h
    exact .redis hu hp hid

/-- An id that is on its way was on its way before, or has just been given. -/
theorem Move.carried {s s' : State} {l : Label} {es : List Event} {p : Packet} {msgId : UInt64}
    (hm : Move s l s' es) (h : Carried s' p msgId) :
    Carried s p msgId ∨ .numbered p msgId ∈ es := by
  cases hm with
  | accept | refuse | setOnline => exact Or.inl (h.of_eq rfl rfl rfl)
  | take hw ht =>
    rcases h.setBiz with h | h
    · exact absurd h (by simp [BizPc.named])
    · exact Or.inl (h.of_eq rfl rfl rfl)
  | number hw hg =>
    rcases h.setBiz with h | h
    · obtain ⟨rfl, rfl⟩ := Prod.mk.inj (Option.some.inj h)
      exact Or.inr List.mem_cons_self
    · exact Or.inl (h.of_eq rfl rfl rfl)
  | broadcast hw =>
    rcases h.setBiz with h | h
    · exact absurd h (by simp [BizPc.named])
    · exact Or.inl h
  | @route w q id body ctx hw =>
    rcases h.setBiz with h | h
    · exact Or.inl (.biz (show (s.biz w).named = some (p, msgId) by rw [hw]; exact h))
    · exact Or.inl h
  | @queue w t hw =>
    rcases h.setBiz with h | h
    · exact absurd h (by simp [BizPc.named])
    · cases h with
      | biz h => exact Or.inl (.biz h)
      | queue h hp hid =>
        rcases List.mem_append.mp h with h | h
        · exact Or.inl (.queue h hp hid)
        · obtain rfl := List.mem_singleton.mp h
          exact Or.inl (.biz (show (s.biz w).named = some (p, msgId) by rw [hw, ← hp, ← hid]; rfl))
      | redis h hp hid => exact Or.inl (.redis h hp hid)
  | drop hw =>
    rcases h.setBiz with h | h
    · exact absurd h (by simp [BizPc.named])
    · exact Or.inl h
  | takeTask hv ht =>
    cases h with
    | biz h => exact Or.inl (.biz h)
    | queue h hp hid => exact Or.inl (.queue (ht ▸ List.mem_cons_of_mem _ h) hp hid)
    | redis h hp hid =>
      rcases task_setRedis h with h | h
      · obtain rfl := Option.some.inj h
        exact Or.inl (.queue (ht ▸ List.mem_cons_self) hp hid)
      · exact Or.inl (.redis h hp hid)
  | store hv => exact Or.inl (h.setRedis (Or.inr (by rw [hv]; rfl)))
  | giveUp hv => exact Or.inl (h.setRedis (Or.inl rfl))
  | ack hv => exact Or.inl (h.setRedis (Or.inr (by rw [hv]; rfl)))
  | send hv hctx => exact Or.inl (h.setRedis (Or.inl rfl))
  | offline hv hctx => exact Or.inl (h.setRedis (Or.inl rfl))

/-- A task carries the id its packet was given. -/
structure Known (s : State) (τ : List Event) : Prop where
  carried : ∀ p msgId, Carried s p msgId → .numbered p msgId ∈ τ
  stored : ∀ t, .stored t ∈ τ → .numbered t.packet t.msgId ∈ τ
  sent : ∀ t queued, .sent t queued ∈ τ → .numbered t.packet t.msgId ∈ τ

theorem Known.step {s s' : State} {τ es : List Event} {l : Label} (h : Known s τ)
    (hm : Move s l s' es) : Known s' (τ ++ es) := by
  refine ⟨fun p msgId hc => ?_, fun t ht => ?_, fun t queued ht => ?_⟩
  · rcases hm.carried hc with hc | he
    · exact List.mem_append_left _ (h.carried p msgId hc)
    · exact List.mem_append_right _ he
  · refine List.mem_append_left _ ?_
    rcases List.mem_append.mp ht with ht | ht
    · exact h.stored t ht
    · obtain ⟨v, hv, -⟩ := hm.redis_of_stored ht
      exact h.carried _ _ (.redis (v := v) (by rw [hv]; rfl) rfl rfl)
  · refine List.mem_append_left _ ?_
    rcases List.mem_append.mp ht with ht | ht
    · exact h.sent t queued ht
    · obtain ⟨v, hv⟩ := hm.redis_of_sent ht
      exact h.carried _ _ (.redis (v := v) (by rw [hv]; rfl) rfl rfl)

/-- So whatever is in the second pool has been through the first. -/
theorem Known.taken {s : State} {τ : List Event} {p : Packet} (h : Known s τ)
    (hp : InQueue s p ∨ InRedis s p ∨ Sent τ p) : Taken s τ p := by
  rcases hp with ⟨t, ht, rfl⟩ | ⟨v, t, ht, rfl⟩ | ⟨t, queued, ht, rfl⟩
  · exact Or.inr ⟨t.msgId, h.carried _ _ (.queue ht rfl rfl)⟩
  · exact Or.inr ⟨t.msgId, h.carried _ _ (.redis ht rfl rfl)⟩
  · exact Or.inr ⟨t.msgId, h.sent t queued ht⟩

/-! ## 4. Once the second is out, the first is behind it nowhere -/

/-- The two packets do not meet in a pool. -/
def Apart (p₁ p₂ : Packet) (s : State) : Label → Prop
  | .take _ => s.tasks.head? = some p₂ → ∀ w, (s.biz w).packet ≠ some p₁
  | .takeTask _ => s.redisTasks.head?.map Task.packet = some p₂ →
      ∀ v, (s.redis v).task.map Task.packet ≠ some p₁
  | _ => True

instance (p₁ p₂ : Packet) (s : State) : DecidablePred (Apart p₁ p₂ s)
  | .take _ => inferInstanceAs (Decidable (_ → ∀ _, _))
  | .takeTask _ => inferInstanceAs (Decidable (_ → ∀ _, _))
  | .arrive .. | .setOnline .. | .number .. | .lookup _ | .queue .. | .store .. | .ack .. | .send .. =>
      isTrue trivial

/-- Where the two packets can be, place by place. -/
structure Places (p₁ p₂ : Packet) (s : State) (τ : List Event) : Prop where
  arrived : ∀ p, p ∈ s.tasks ∨ Taken s τ p → p.number < s.arrivals
  sorted : s.tasks.Pairwise fun p q => p.number < q.number
  biz : Taken s τ p₂ → p₁ ∉ s.tasks ∧ ¬ InBiz s p₁
  queue : s.redisTasks.Pairwise fun t t' => ¬ (t.packet = p₂ ∧ t'.packet = p₁)
  redis : InRedis s p₂ ∨ Sent τ p₂ → ¬ InQueue s p₁ ∧ ¬ InRedis s p₁

theorem Move.taken {s s' : State} {τ es : List Event} {l : Label} {p : Packet} (hm : Move s l s' es)
    (hbiz : InBiz s' p → InBiz s p) (h : Taken s' (τ ++ es) p) : Taken s τ p := by
  rcases h with h | h
  · exact Or.inl (hbiz h)
  · rcases numbered_append.mp h with h | h
    · exact Or.inr h
    · exact Or.inl (hm.inBiz_of_numbered h)

theorem Move.passed {s s' : State} {τ es : List Event} {l : Label} {p : Packet} (hm : Move s l s' es)
    (hredis : InRedis s' p → InRedis s p) (h : InRedis s' p ∨ Sent (τ ++ es) p) :
    InRedis s p ∨ Sent τ p := by
  rcases h with h | h
  · exact Or.inl (hredis h)
  · rcases sent_append.mp h with h | h
    · exact Or.inr h
    · exact Or.inl (hm.inRedis_of_sent h)

/-- A step that takes nothing from a queue and puts nothing into one. -/
theorem Places.keep {p₁ p₂ : Packet} {s s' : State} {τ es : List Event} {l : Label}
    (h : Places p₁ p₂ s τ) (hm : Move s l s' es) (harr : s.arrivals ≤ s'.arrivals)
    (htasks : s'.tasks = s.tasks) (hbiz : ∀ p, InBiz s' p → InBiz s p)
    (hqueue : s'.redisTasks = s.redisTasks) (hredis : ∀ p, InRedis s' p → InRedis s p) :
    Places p₁ p₂ s' (τ ++ es) := by
  refine ⟨fun p hp => ?_, htasks ▸ h.sorted, fun ht => ?_, hqueue ▸ h.queue, fun hr => ?_⟩
  · rw [htasks] at hp
    exact lt_of_lt_of_le (h.arrived p (hp.imp_right (hm.taken (hbiz p)))) harr
  · obtain ⟨hnt, hnb⟩ := h.biz (hm.taken (hbiz p₂) ht)
    exact ⟨htasks ▸ hnt, fun hb => hnb (hbiz p₁ hb)⟩
  · obtain ⟨hnq, hnr⟩ := h.redis (hm.passed (hredis p₂) hr)
    refine ⟨fun hq => hnq ?_, fun hr => hnr (hredis p₁ hr)⟩
    rw [InQueue, hqueue] at hq
    exact hq

theorem Places.accept {p₁ p₂ : Packet} {s : State} {τ : List Event} {conn : Nat} {body : Bytes}
    (h : Places p₁ p₂ s τ) (hlt : p₁.number < p₂.number) :
    Places p₁ p₂ { s with arrivals := s.arrivals + 1, tasks := s.tasks ++ [⟨s.arrivals, conn, body⟩] }
      (τ ++ [.accepted ⟨s.arrivals, conn, body⟩]) := by
  have hm : Move s (.arrive conn body true) _ _ := .accept
  refine ⟨fun p hp => ?_, ?_, fun ht => ?_, h.queue, fun hr => h.redis (hm.passed id hr)⟩
  · rcases hp with hp | hp
    · rcases List.mem_append.mp hp with hp | hp
      · exact Nat.lt_succ_of_lt (h.arrived p (Or.inl hp))
      · rw [List.mem_singleton.mp hp]
        exact Nat.lt_succ_self _
    · exact Nat.lt_succ_of_lt (h.arrived p (Or.inr (hm.taken id hp)))
  · refine List.pairwise_append.mpr ⟨h.sorted, List.pairwise_singleton _ _, fun p hp q hq => ?_⟩
    rw [List.mem_singleton.mp hq]
    exact h.arrived p (Or.inl hp)
  · have ht : Taken s τ p₂ := hm.taken id ht
    refine ⟨fun hmem => ?_, (h.biz ht).2⟩
    rcases List.mem_append.mp hmem with hmem | hmem
    · exact (h.biz ht).1 hmem
    · -- The second has arrived, so the packet that arrives now is not the first.
      rw [List.mem_singleton.mp hmem] at hlt
      exact absurd (h.arrived p₂ (Or.inr ht)) (Nat.lt_asymm hlt)

theorem Places.take {p₁ p₂ p : Packet} {s : State} {τ : List Event} {w : Fin businessThreads}
    {rest : List Packet} (h : Places p₁ p₂ s τ) (hlt : p₁.number < p₂.number)
    (hw : s.biz w = .waiting) (ht : s.tasks = p :: rest) (hap : Apart p₁ p₂ s (.take w)) :
    Places p₁ p₂ (setBiz { s with tasks := rest } w (.chat p)) (τ ++ []) := by
  have hm : Move s (.take w) _ _ := .take hw ht
  have hsorted := h.sorted
  rw [ht, List.pairwise_cons] at hsorted
  -- Nobody has a packet that was not in hand before, but for `p`.
  have htaken : ∀ q, Taken (setBiz { s with tasks := rest } w (.chat p)) (τ ++ []) q → q = p ∨ Taken s τ q := by
    intro q hq
    rcases hq with hq | hq
    · rcases inBiz_setBiz hq with hq | hq
      · exact Or.inl (Option.some.inj hq).symm
      · exact Or.inr (Or.inl hq)
    · rw [List.append_nil] at hq
      exact Or.inr (Or.inr hq)
  refine ⟨fun q hq => ?_, hsorted.2, fun hp₂ => ?_, h.queue, fun hr => h.redis (hm.passed id hr)⟩
  · rcases hq with hq | hq
    · exact h.arrived q (Or.inl (ht ▸ List.mem_cons_of_mem _ hq))
    · rcases htaken q hq with rfl | hq
      · exact h.arrived q (Or.inl (ht ▸ List.mem_cons_self))
      · exact h.arrived q (Or.inr hq)
  · rcases htaken p₂ hp₂ with rfl | hp₂
    · refine ⟨fun hmem => absurd (hsorted.1 p₁ hmem) (Nat.lt_asymm hlt), fun hb => ?_⟩
      rcases inBiz_setBiz hb with hb | ⟨u, hu⟩
      · rw [Option.some.inj hb] at hlt
        exact absurd hlt (Nat.lt_irrefl _)
      · exact hap (by rw [ht]; rfl) u hu
    · obtain ⟨hnt, hnb⟩ := h.biz hp₂
      rw [ht] at hnt
      refine ⟨fun hmem => hnt (List.mem_cons_of_mem _ hmem), fun hb => ?_⟩
      rcases inBiz_setBiz hb with hb | hb
      · exact hnt (Option.some.inj hb ▸ List.mem_cons_self)
      · exact hnb hb

theorem Places.queue_task {p₁ p₂ : Packet} {s : State} {τ : List Event} {w : Fin businessThreads}
    {t : Task} (h : Places p₁ p₂ s τ) (hk : Known s τ) (hw : s.biz w = .routed t) :
    Places p₁ p₂ (setBiz { s with redisTasks := s.redisTasks ++ [t] } w .waiting) (τ ++ []) := by
  have hm : Move s (.queue w true) _ _ := .queue hw
  have hbiz : ∀ q, InBiz (setBiz { s with redisTasks := s.redisTasks ++ [t] } w .waiting) q → InBiz s q :=
    fun q hq => inBiz_of_setBiz (Or.inl rfl) hq
  -- As long as the first is in the business pool, the second is not in the other one.
  have hfirst : t.packet = p₁ → ¬ Taken s τ p₂ := by
    intro hp ht
    exact (h.biz ht).2 ⟨w, by rw [hw]; exact congrArg some hp⟩
  refine ⟨fun p hp => h.arrived p (hp.imp_right (hm.taken (hbiz p))), h.sorted, fun ht => ?_, ?_, fun hr => ?_⟩
  · obtain ⟨hnt, hnb⟩ := h.biz (hm.taken (hbiz p₂) ht)
    exact ⟨hnt, fun hb => hnb (hbiz p₁ hb)⟩
  · refine List.pairwise_append.mpr ⟨h.queue, List.pairwise_singleton _ _, fun t₂ ht₂ t₁ ht₁ hpair => ?_⟩
    rw [List.mem_singleton.mp ht₁] at hpair
    exact hfirst hpair.2 (hk.taken (Or.inl ⟨t₂, ht₂, hpair.1⟩))
  · have hr : InRedis s p₂ ∨ Sent τ p₂ := hm.passed id hr
    obtain ⟨hnq, hnr⟩ := h.redis hr
    refine ⟨fun hq => ?_, hnr⟩
    obtain ⟨t', ht', hp⟩ := hq
    rcases List.mem_append.mp ht' with ht' | ht'
    · exact hnq ⟨t', ht', hp⟩
    · rw [List.mem_singleton.mp ht'] at hp
      exact hfirst hp (hk.taken (Or.inr hr))

theorem Places.takeTask {p₁ p₂ : Packet} {s : State} {τ : List Event} {v : Fin redisThreads}
    {t : Task} {rest : List Task} (h : Places p₁ p₂ s τ) (hne : p₁ ≠ p₂)
    (hv : s.redis v = .waiting) (ht : s.redisTasks = t :: rest) (hap : Apart p₁ p₂ s (.takeTask v)) :
    Places p₁ p₂ (setRedis { s with redisTasks := rest } v (.storing t)) (τ ++ []) := by
  have hm : Move s (.takeTask v) _ _ := .takeTask hv ht
  have hqueue := h.queue
  rw [ht, List.pairwise_cons] at hqueue
  refine ⟨fun p hp => h.arrived p (hp.imp_right (hm.taken id)), h.sorted,
    fun hp₂ => h.biz (hm.taken id hp₂), hqueue.2, fun hr => ?_⟩
  have hold : t.packet = p₂ ∨ InRedis s p₂ ∨ Sent τ p₂ := by
    rcases hr with hr | hr
    · rcases inRedis_setRedis hr with hr | hr
      · exact Or.inl (Option.some.inj hr)
      · exact Or.inr (Or.inl hr)
    · rw [List.append_nil] at hr
      exact Or.inr (Or.inr hr)
  rcases hold with rfl | hold
  · refine ⟨fun ⟨t', ht', hp⟩ => hqueue.1 t' ht' ⟨rfl, hp⟩, fun hr₁ => ?_⟩
    rcases inRedis_setRedis hr₁ with hr₁ | ⟨u, t', hu, hp⟩
    · exact hne (Option.some.inj hr₁).symm
    · refine hap (by rw [ht]; rfl) u ?_
      rw [hu, ← hp]
      rfl
  · obtain ⟨hnq, hnr⟩ := h.redis hold
    refine ⟨fun ⟨t', ht', hp⟩ => hnq ⟨t', ht ▸ List.mem_cons_of_mem _ ht', hp⟩, fun hr₁ => ?_⟩
    rcases inRedis_setRedis hr₁ with hr₁ | hr₁
    · exact hnq ⟨t, ht ▸ List.mem_cons_self, Option.some.inj hr₁⟩
    · exact hnr hr₁

theorem Places.step {p₁ p₂ : Packet} {s s' : State} {τ es : List Event} {l : Label}
    (h : Places p₁ p₂ s τ) (hk : Known s τ) (hlt : p₁.number < p₂.number) (hap : Apart p₁ p₂ s l)
    (hm : Move s l s' es) : Places p₁ p₂ s' (τ ++ es) := by
  have hbiz : ∀ {w pc}, pc.packet = none ∨ pc.packet = (s.biz w).packet →
      ∀ p, InBiz (setBiz s w pc) p → InBiz s p := fun hpc p hp => inBiz_of_setBiz hpc hp
  have hredis : ∀ {v pc}, pc.task = none ∨ pc.task = (s.redis v).task →
      ∀ p, InRedis (setRedis s v pc) p → InRedis s p := fun hpc p hp => inRedis_of_setRedis hpc hp
  have hmove := hm
  cases hm with
  | accept => exact h.accept hlt
  | take hw ht => exact h.take hlt hw ht hap
  | queue hw => exact h.queue_task hk hw
  | takeTask hv ht => exact h.takeTask (fun he => absurd (he ▸ hlt) (Nat.lt_irrefl _)) hv ht hap
  | refuse => exact h.keep hmove (Nat.le_succ _) rfl (fun _ => id) rfl (fun _ => id)
  | setOnline => exact h.keep hmove le_rfl rfl (fun _ => id) rfl (fun _ => id)
  | number hw hg =>
    exact h.keep hmove le_rfl rfl (hbiz (Or.inr (by rw [hw]; rfl))) rfl (fun _ => id)
  | broadcast hw => exact h.keep hmove le_rfl rfl (hbiz (Or.inl rfl)) rfl (fun _ => id)
  | route hw => exact h.keep hmove le_rfl rfl (hbiz (Or.inr (by rw [hw]; rfl))) rfl (fun _ => id)
  | drop hw => exact h.keep hmove le_rfl rfl (hbiz (Or.inl rfl)) rfl (fun _ => id)
  | store hv =>
    exact h.keep hmove le_rfl rfl (fun _ => id) rfl (hredis (Or.inr (by rw [hv]; rfl)))
  | giveUp hv => exact h.keep hmove le_rfl rfl (fun _ => id) rfl (hredis (Or.inl rfl))
  | ack hv => exact h.keep hmove le_rfl rfl (fun _ => id) rfl (hredis (Or.inr (by rw [hv]; rfl)))
  | send hv hctx => exact h.keep hmove le_rfl rfl (fun _ => id) rfl (hredis (Or.inl rfl))
  | offline hv hctx => exact h.keep hmove le_rfl rfl (fun _ => id) rfl (hredis (Or.inl rfl))

/-! ## 5. Ids -/

/-- The clock is read within the era of the ids. -/
def Label.InEra : Label → Prop
  | .number _ clock _ => ∀ t ∈ clock, SnowflakeIdGenerator.InEra t
  | _ => True

/-- The ids given so far, in the order they were given, and how those of the two packets compare. -/
structure InSequence (p₁ p₂ : Packet) (s : State) (τ : List Event) (issued : List Issued) : Prop where
  increasing : Increasing s.msgIdGen issued
  issued : ∀ p msgId, .numbered p msgId ∈ τ → ∃ e ∈ issued, e.id = msgId
  lt : ∀ a b, .numbered p₁ a ∈ τ → .numbered p₂ b ∈ τ → a < b

/-- Only `nextMsgId` changes the generator, and only it gives an id. -/
theorem Move.nextMsgId {s s' : State} {l : Label} {es : List Event} (hm : Move s l s' es) :
    (s'.msgIdGen = s.msgIdGen ∧ ∀ p msgId, .numbered p msgId ∉ es) ∨
      ∃ w p clock ts e, l = .number w clock ts ∧ s.biz w = .chat p ∧
        s.msgIdGen.nextId clock = some (s'.msgIdGen, [e]) ∧ es = [.numbered p e.id] := by
  cases hm with
  | number hw hg => exact Or.inr ⟨_, _, _, _, _, rfl, hw, hg, rfl⟩
  | @ack v t valid hv => cases valid <;> exact Or.inl ⟨rfl, by simp⟩
  | _ => exact Or.inl ⟨rfl, by simp⟩

theorem InSequence.step {p₁ p₂ : Packet} {s s' : State} {τ es : List Event} {l : Label}
    {issued : List Issued} (h : InSequence p₁ p₂ s τ issued) (hp : Places p₁ p₂ s τ)
    (hlt : p₁.number < p₂.number) (hera : l.InEra) (hm : Move s l s' es) :
    ∃ issued', InSequence p₁ p₂ s' (τ ++ es) issued' := by
  rcases hm.nextMsgId with ⟨hgen, hes⟩ | ⟨w, p, clock, ts, e, rfl, hw, hg, rfl⟩
  · have hold : ∀ p msgId, .numbered p msgId ∈ τ ++ es → .numbered p msgId ∈ τ :=
      fun p msgId hmem => (List.mem_append.mp hmem).resolve_right (hes p msgId)
    exact ⟨issued, hgen ▸ h.increasing, fun p msgId hmem => h.issued p msgId (hold p msgId hmem),
      fun a b ha hb => h.lt a b (hold p₁ a ha) (hold p₂ b hb)⟩
  · have hinc := h.increasing.nextId hera hg
    have hnew : ∀ q msgId, .numbered q msgId ∈ τ ++ [.numbered p e.id] →
        .numbered q msgId ∈ τ ∨ q = p ∧ msgId = e.id := by
      intro q msgId hmem
      rcases List.mem_append.mp hmem with hmem | hmem
      · exact Or.inl hmem
      · exact Or.inr (Event.numbered.inj (List.mem_singleton.mp hmem))
    refine ⟨issued ++ [e], hinc, fun q msgId hmem => ?_, fun a b ha hb => ?_⟩
    · rcases hnew q msgId hmem with hmem | ⟨-, rfl⟩
      · obtain ⟨e', he', hid⟩ := h.issued q msgId hmem
        exact ⟨e', List.mem_append_left _ he', hid⟩
      · exact ⟨e, List.mem_append_right _ List.mem_cons_self, rfl⟩
    · rcases hnew p₁ a ha with ha | ⟨rfl, rfl⟩
      · rcases hnew p₂ b hb with hb | ⟨-, rfl⟩
        · exact h.lt a b ha hb
        · obtain ⟨e', he', rfl⟩ := h.issued p₁ a ha
          exact (List.pairwise_append.mp hinc.sorted).2.2 e' he' e List.mem_cons_self
      · -- The first gets its id now: the second has none.
        rcases hnew p₂ b hb with hb | ⟨heq, -⟩
        · exact absurd ⟨w, by rw [hw]; rfl⟩ (hp.biz (Or.inr ⟨b, hb⟩)).2
        · rw [heq] at hlt
          exact absurd hlt (Nat.lt_irrefl _)

/-! ## 6. Frames -/

/-- The stored task a Redis worker has still to send. -/
def RedisPc.owed : RedisPc → Option Task
  | .waiting => none
  | .storing _ => none
  | .acking t => some t
  | .sending t => some t

def Owed (s : State) (t : Task) : Prop := ∃ v, (s.redis v).owed = some t

theorem Owed.inRedis {s : State} {t : Task} (h : Owed s t) : InRedis s t.packet := by
  obtain ⟨v, hv⟩ := h
  refine ⟨v, t, ?_, rfl⟩
  cases hpc : s.redis v with
  | waiting => rw [hpc] at hv; exact absurd hv (by simp [RedisPc.owed])
  | storing t' => rw [hpc] at hv; exact absurd hv (by simp [RedisPc.owed])
  | acking t' => rw [hpc] at hv; exact hv
  | sending t' => rw [hpc] at hv; exact hv

theorem Owed.setRedis {s : State} {v : Fin redisThreads} {pc : RedisPc} {t : Task} (h : Owed s t)
    (hv : (s.redis v).owed = some t → pc.owed = some t) : Owed (setRedis s v pc) t := by
  obtain ⟨u, hu⟩ := h
  by_cases huv : u = v
  · subst huv
    exact ⟨u, by simp only [Conversation.setRedis, Function.update_self]; exact hv hu⟩
  · exact ⟨u, by simp only [Conversation.setRedis, Function.update_of_ne huv]; exact hu⟩

/-- What is owed to a target that is online is owed still, or has been sent. -/
theorem Move.owed {s s' : State} {l : Label} {es : List Event} {t : Task} (hm : Move s l s' es)
    (h : Owed s t) (hctx : t.targetCtx.isSome = true) : Owed s' t ∨ ∃ queued, .sent t queued ∈ es := by
  cases hm with
  | takeTask hv ht => exact Or.inl (h.setRedis fun ho => absurd ho (by simp [hv, RedisPc.owed]))
  | store hv => exact Or.inl (h.setRedis fun ho => absurd ho (by simp [hv, RedisPc.owed]))
  | giveUp hv => exact Or.inl (h.setRedis fun ho => absurd ho (by simp [hv, RedisPc.owed]))
  | ack hv => exact Or.inl (h.setRedis fun ho => by rw [hv] at ho; exact ho)
  | @send v t' queued hv hctx' =>
    by_cases heq : t' = t
    · subst heq
      exact Or.inr ⟨queued, List.mem_cons_self⟩
    · exact Or.inl (h.setRedis fun ho => absurd ho (by simp [hv, RedisPc.owed, heq]))
  | @offline v t' queued hv hoff =>
    refine Or.inl (h.setRedis fun ho => ?_)
    rw [hv] at ho
    rw [Option.some.inj ho, hctx] at hoff
    exact absurd hoff (by simp)
  | _ => exact Or.inl h

/-- The frames passed to the target, in the order they were passed. -/
structure InOrder (p₁ p₂ : Packet) (s : State) (τ : List Event) : Prop where
  owed : ∀ t, .stored t ∈ τ → t.targetCtx.isSome = true → Owed s t ∨ ∃ queued, .sent t queued ∈ τ
  before : ∀ t₁ t₂ queued, t₁.packet = p₁ → t₂.packet = p₂ → t₁.targetCtx.isSome = true →
    .stored t₁ ∈ τ → .sent t₂ queued ∈ τ → ∃ queued₁, [Event.sent t₁ queued₁, .sent t₂ queued].Sublist τ
  not_after : ∀ t₁ t₂ queued₁ queued, t₁.packet = p₁ → t₂.packet = p₂ →
    ¬ [Event.sent t₂ queued, .sent t₁ queued₁].Sublist τ

theorem InOrder.step {p₁ p₂ : Packet} {s s' : State} {τ es : List Event} {l : Label}
    (h : InOrder p₁ p₂ s τ) (hp : Places p₁ p₂ s τ) (hm : Move s l s' es) :
    InOrder p₁ p₂ s' (τ ++ es) := by
  refine ⟨fun t ht hctx => ?_, fun t₁ t₂ queued h₁ h₂ hctx hst hsent => ?_,
    fun t₁ t₂ queued₁ queued h₁ h₂ hsub => ?_⟩
  · rcases List.mem_append.mp ht with ht | ht
    · rcases h.owed t ht hctx with ho | ⟨queued, hq⟩
      · rcases hm.owed ho hctx with ho | ⟨queued, hq⟩
        · exact Or.inl ho
        · exact Or.inr ⟨queued, List.mem_append_right _ hq⟩
      · exact Or.inr ⟨queued, List.mem_append_left _ hq⟩
    · obtain ⟨v, -, rfl⟩ := hm.redis_of_stored ht
      exact Or.inl ⟨v, by simp only [setRedis, Function.update_self]; rfl⟩
  · -- The first is not in the Redis pool any more, so it has been stored already.
    have hnr : ¬ InRedis s p₁ := by
      refine (hp.redis ?_).2
      rcases List.mem_append.mp hsent with hsent | hsent
      · exact Or.inr ⟨t₂, queued, hsent, h₂⟩
      · exact Or.inl (hm.inRedis_of_sent ⟨t₂, queued, hsent, h₂⟩)
    have hst : .stored t₁ ∈ τ := by
      refine (List.mem_append.mp hst).resolve_right fun hst => hnr ?_
      obtain ⟨v, hv, -⟩ := hm.redis_of_stored hst
      exact ⟨v, t₁, by rw [hv]; rfl, h₁⟩
    rcases List.mem_append.mp hsent with hsent | hsent
    · obtain ⟨queued₁, hsub⟩ := h.before t₁ t₂ queued h₁ h₂ hctx hst hsent
      exact ⟨queued₁, hsub.trans (List.sublist_append_left _ _)⟩
    · rcases h.owed t₁ hst hctx with ho | ⟨queued₁, hq⟩
      · exact absurd (h₁ ▸ ho.inRedis) hnr
      · exact ⟨queued₁, (List.singleton_sublist.mpr hq).append (List.singleton_sublist.mpr hsent)⟩
  · by_cases hmem : .sent t₁ queued₁ ∈ es
    · -- A worker has the first in hand, but the second has been there.
      have hfirst : InRedis s p₁ := hm.inRedis_of_sent ⟨t₁, queued₁, hmem, h₁⟩
      have hsecond : Sent (τ ++ es) p₂ := ⟨t₂, queued, hsub.subset List.mem_cons_self, h₂⟩
      rcases sent_append.mp hsecond with hsecond | hsecond
      · exact (hp.redis (Or.inr hsecond)).2 hfirst
      · exact (hp.redis (Or.inl (hm.inRedis_of_sent hsecond))).2 hfirst
    · exact h.not_after t₁ t₂ queued₁ queued h₁ h₂
        (sublist_of_last_not_mem (l := [Event.sent t₂ queued]) hsub hmem)

/-! ## 7. Every schedule -/

/-- Packets are numbered as they arrive. -/
structure Arrivals (s : State) (τ : List Event) : Prop where
  lt : ∀ p, .accepted p ∈ τ → p.number < s.arrivals
  sorted : ∀ p q, [Event.accepted p, .accepted q].Sublist τ → p.number < q.number

theorem Move.arrivals {s s' : State} {l : Label} {es : List Event} (hm : Move s l s' es) :
    (s.arrivals ≤ s'.arrivals ∧ ∀ p, .accepted p ∉ es) ∨
      ∃ p, p.number = s.arrivals ∧ s'.arrivals = s.arrivals + 1 ∧ es = [.accepted p] := by
  cases hm with
  | accept => exact Or.inr ⟨_, rfl, rfl, rfl⟩
  | refuse => exact Or.inl ⟨Nat.le_succ _, by simp⟩
  | @ack v t valid hv => cases valid <;> exact Or.inl ⟨le_rfl, by simp⟩
  | _ => exact Or.inl ⟨le_rfl, by simp⟩

theorem Arrivals.step {s s' : State} {τ es : List Event} {l : Label} (h : Arrivals s τ)
    (hm : Move s l s' es) : Arrivals s' (τ ++ es) := by
  rcases hm.arrivals with ⟨hle, hes⟩ | ⟨r, hr, harr, rfl⟩
  · refine ⟨fun p hp => ?_, fun p q hpq => ?_⟩
    · exact lt_of_lt_of_le (h.lt p ((List.mem_append.mp hp).resolve_right (hes p))) hle
    · exact h.sorted p q (sublist_of_last_not_mem (l := [Event.accepted p]) hpq (hes q))
  · refine ⟨fun p hp => ?_, fun p q hpq => ?_⟩
    · rw [harr]
      rcases List.mem_append.mp hp with hp | hp
      · exact Nat.lt_succ_of_lt (h.lt p hp)
      · rw [Event.accepted.inj (List.mem_singleton.mp hp), hr]
        exact Nat.lt_succ_self _
    · rcases sublist_concat hpq with hpq | ⟨l', hl', hsub⟩
      · exact h.sorted p q hpq
      · have hends : [Event.accepted p] ++ [.accepted q] = l' ++ [.accepted r] := hl'
        obtain ⟨rfl, hq⟩ := List.append_inj' hends rfl
        rw [Event.accepted.inj (List.singleton_inj.mp hq), hr]
        exact h.lt p (List.singleton_sublist.mp hsub)

/-- Everything that is kept about the two packets. -/
structure Followed (p₁ p₂ : Packet) (s : State) (τ : List Event) : Prop where
  known : Known s τ
  places : Places p₁ p₂ s τ
  ids : ∃ issued, InSequence p₁ p₂ s τ issued
  frames : InOrder p₁ p₂ s τ

theorem Followed.step {p₁ p₂ : Packet} {s s' : State} {τ es : List Event} {l : Label}
    (h : Followed p₁ p₂ s τ) (hlt : p₁.number < p₂.number) (hap : Apart p₁ p₂ s l) (hera : l.InEra)
    (hs : step s l = some (s', es)) : Followed p₁ p₂ s' (τ ++ es) := by
  have hm := move_of_step hs
  obtain ⟨issued, hids⟩ := h.ids
  exact ⟨h.known.step hm, h.places.step h.known hlt hap hm, hids.step h.places hlt hera hm,
    h.frames.step h.places hm⟩

/-- At the start nothing is anywhere. -/
theorem followed_start {p₁ p₂ : Packet} (hash : UInt64) : Followed p₁ p₂ (start hash) [] := by
  have hbiz : ∀ p, ¬ InBiz (start hash) p := fun p ⟨w, hw⟩ => absurd hw (by simp [start, BizPc.packet])
  have hredis : ∀ p, ¬ InRedis (start hash) p :=
    fun p ⟨v, t, hv, _⟩ => absurd hv (by simp [start, RedisPc.task])
  have hknown : Known (start hash) [] := by
    refine ⟨fun p msgId hc => ?_, by simp, by simp⟩
    cases hc with
    | biz h => exact absurd h (by simp [start, BizPc.named])
    | queue h _ _ => exact absurd h (by simp [start])
    | redis h _ _ => exact absurd h (by simp [start, RedisPc.task])
  have htaken : ∀ p, ¬ Taken (start hash) [] p := by
    intro p h
    rcases h with h | ⟨msgId, h⟩
    · exact hbiz p h
    · exact absurd h (by simp)
  have hplaces : Places p₁ p₂ (start hash) [] := by
    refine ⟨fun p hp => ?_, .nil, fun h => absurd h (htaken p₂), .nil, fun h => ?_⟩
    · rcases hp with hp | hp
      · exact absurd hp (by simp [start])
      · exact absurd hp (htaken p)
    · rcases h with h | ⟨t, queued, h, _⟩
      · exact absurd h (hredis p₂)
      · exact absurd h (by simp)
  exact ⟨hknown, hplaces,
    ⟨[], ⟨create_ok hash, by simp, .nil, by simp, by simp⟩, by simp, by simp⟩,
    ⟨by simp, by simp, by simp⟩⟩

/-- Two packets of one connection to one target that is online, accepted in this order and both
    stored. -/
structure InTurn (t₁ t₂ : Task) (τ : List Event) : Prop where
  accepted : [Event.accepted t₁.packet, .accepted t₂.packet].Sublist τ
  conn : t₁.packet.conn = t₂.packet.conn
  target : t₁.packet.target = t₂.packet.target
  online₁ : t₁.targetCtx.isSome = true
  online₂ : t₂.targetCtx.isSome = true
  stored₁ : .stored t₁ ∈ τ
  stored₂ : .stored t₂ ∈ τ

/-- What `amy` says to `bob` over connection 3, and what the business pool makes of it. -/
def toBob (number : Nat) (message : Bytes) (msgId : UInt64) : Task :=
  { packet := ⟨number, 3, chatJson (ascii "amy") (ascii "bob") message⟩
    msgId := msgId
    enrichedBody := buildEnrichedChatBodyWithMsgId msgId.toNat (ascii "amy") (ascii "bob") message []
    targetCtx := some 7 }

def hello (msgId : UInt64) : Task := toBob 0 (ascii "hello") msgId

def bye (msgId : UInt64) : Task := toBob 1 (ascii "bye") msgId

/-- Both arrive while `bob` is online, and then the pools go to work. -/
def bothArrive (ls : List Label) : List Label :=
  [.setOnline (ascii "bob") (some 7), .arrive 3 (hello 0).packet.body true,
    .arrive 3 (bye 0).packet.body true] ++ ls

theorem inTurn_both {a b : UInt64} {τ : List Event} (ha : .stored (hello a) ∈ τ)
    (hb : .stored (bye b) ∈ τ) :
    InTurn (hello a) (bye b) (.accepted (hello a).packet :: .accepted (bye b).packet :: τ) where
  accepted := .cons_cons _ (.cons_cons _ (List.nil_sublist τ))
  conn := rfl
  target := by
    show (hello 0).packet.target = (bye 0).packet.target
    decide
  online₁ := rfl
  online₂ := rfl
  stored₁ := List.mem_cons_of_mem _ (List.mem_cons_of_mem _ ha)
  stored₂ := List.mem_cons_of_mem _ (List.mem_cons_of_mem _ hb)

/-- The second packet is in the business pool while the first is in the other. -/
def oneAfterTheOther : List Label :=
  bothArrive [.take 0, .number 0 [1704067200001] [], .lookup 0, .queue 0 true,
    .take 1, .takeTask 0, .number 1 [1704067200001] [], .store 0 true, .lookup 1, .queue 1 true,
    .ack 0 true, .send 0 true, .takeTask 1, .store 1 true, .ack 1 false, .send 1 true]

/-- Worker 0 has taken the first packet and rests before `nextMsgId`. -/
def metInBusinessPool : List Label :=
  bothArrive [.take 0, .take 1, .number 1 [1704067200001] [], .number 0 [1704067200001] [],
    .lookup 1, .queue 1 true, .lookup 0, .queue 0 true,
    .takeTask 0, .takeTask 1, .store 0 true, .ack 0 true, .send 0 true,
    .store 1 true, .ack 1 true, .send 1 true]

/-- The first packet is ahead until a worker has stored it, and rests before `sendPacket`. -/
def metInRedisPool : List Label :=
  bothArrive [.take 0, .number 0 [1704067200001] [], .lookup 0, .queue 0 true,
    .take 0, .number 0 [1704067200001] [], .lookup 0, .queue 0 true,
    .takeTask 0, .takeTask 1, .store 0 true, .store 1 true, .ack 0 true, .ack 1 true,
    .send 1 true, .send 0 true]

end Conversation
end EpollChat
