import EpollChat.Proof.Pending.Tables

/-!
# Stored messages are kept until they are acknowledged

The only command that takes a message's id out of a table, besides the script of
`ackPendingMessage`, is the clean-up `ZREM` of `fetchPendingMessages`. It runs some steps
after an `HGET` found no payload. `PhaseOk` carries the reason why it is harmless across
those steps: the id was read from the schedule, so the message had been stored; it has no
payload, so it has been acknowledged since; and no id is stored twice.

`Touch` lists what a dispatch may do to the tables, each command with what is known of its
id. `Base` is the invariant everything about the pending tables rests on.
-/

namespace EpollChat
namespace Pending

open Lib Machine

/-! ## 1. What a trace knows of an id -/

def Known (τ : List Event) (u i : Bytes) : Prop := ∃ id json, i = idStr id ∧ .stored u id json ∈ τ

def WasAcked (τ : List Event) (u i : Bytes) : Prop :=
  ∃ id ids, i = idStr id ∧ .acked u ids ∈ τ ∧ id ∈ ids

/-- A text a dispatch has fetched. -/
def Fetched (τ : List Event) (u msg : Bytes) : Prop :=
  ∃ id json, msg = cStr json ∧ .stored u id json ∈ τ

theorem Known.mono {τ : List Event} {u i : Bytes} (h : Known τ u i) (es : List Event) :
    Known (τ ++ es) u i := by
  obtain ⟨id, json, hi, hm⟩ := h
  exact ⟨id, json, hi, List.mem_append_left _ hm⟩

theorem WasAcked.mono {τ : List Event} {u i : Bytes} (h : WasAcked τ u i) (es : List Event) :
    WasAcked (τ ++ es) u i := by
  obtain ⟨id, ids, hi, hm, hid⟩ := h
  exact ⟨id, ids, hi, List.mem_append_left _ hm, hid⟩

theorem Fetched.mono {τ : List Event} {u msg : Bytes} (h : Fetched τ u msg) (es : List Event) :
    Fetched (τ ++ es) u msg := by
  obtain ⟨id, json, hi, hm⟩ := h
  exact ⟨id, json, hi, List.mem_append_left _ hm⟩

/-! ## 2. What a thread knows -/

/-- The ids still to be fetched, the messages fetched, and the id being counted and
    rescheduled. -/
def Phase.todo : Phase → List Bytes
  | .fetch ids _ => ids
  | .unschedule _ ids _ => ids
  | _ => []

def Phase.msgs : Phase → List Bytes
  | .fetch _ msgs => msgs
  | .unschedule _ _ msgs => msgs
  | .serve msgs => msgs
  | .send msg _ _ msgs => msg :: msgs
  | .count _ _ _ msgs => msgs
  | .reschedule _ _ msgs => msgs
  | .range => []

def Phase.busy : Phase → Option Bytes
  | .send _ id _ _ => some id
  | .count id _ _ _ => some id
  | .reschedule id _ _ => some id
  | _ => none

/-- The id about to be removed from the schedule. -/
def Phase.stale : Phase → Option Bytes
  | .unschedule id _ _ => some id
  | _ => none

structure PhaseOk (τ : List Event) (u : Bytes) (p : Phase) : Prop where
  todo : ∀ i ∈ p.todo, Known τ u i
  msgs : ∀ m ∈ p.msgs, Fetched τ u m
  busy : ∀ i, p.busy = some i → Known τ u i
  stale : ∀ i, p.stale = some i → WasAcked τ u i

theorem PhaseOk.mono {τ : List Event} {u : Bytes} {p : Phase} (h : PhaseOk τ u p)
    (es : List Event) : PhaseOk (τ ++ es) u p :=
  ⟨fun i hi => (h.todo i hi).mono es, fun m hm => (h.msgs m hm).mono es,
    fun i hi => (h.busy i hi).mono es, fun i hi => (h.stale i hi).mono es⟩

def PcOk (τ : List Event) : Pc → Prop
  | .store _ id json => IsMessage id json
  | .ackSender u id json => .stored u id json ∈ τ
  | .sendTarget u id json => .stored u id json ∈ τ
  | .dispatch d _ => PhaseOk τ (cStr d.user) d.phase
  | _ => True

theorem PcOk.mono {τ : List Event} {pc : Pc} (h : PcOk τ pc) (es : List Event) :
    PcOk (τ ++ es) pc := by
  cases pc with
  | idle => trivial
  | store u id json => exact h
  | ackSender u id json => exact List.mem_append_left _ h
  | sendTarget u id json => exact List.mem_append_left _ h
  | scan us => trivial
  | dispatch d us => exact PhaseOk.mono h es

@[simp] theorem setThread_same (s : State) (tid : Nat) (pc : Pc) :
    (setThread s tid pc).threads tid = pc := Function.update_self ..

theorem setThread_other {t tid : Nat} (h : t ≠ tid) (s : State) (pc : Pc) :
    (setThread s tid pc).threads t = s.threads t := Function.update_of_ne h ..

theorem setThread_all {P : Pc → Prop} {s : State} {tid : Nat} {pc : Pc}
    (h : ∀ t, P (s.threads t)) (hpc : P pc) : ∀ t, P ((setThread s tid pc).threads t) := by
  intro t
  by_cases ht : t = tid
  · rw [ht, setThread_same]
    exact hpc
  · rw [setThread_other ht]
    exact h t

/-! ## 3. The invariant -/

/-- The message is in all four tables. -/
def Kept (r : Redis) (u : Bytes) (id : UInt64) (json : Bytes) : Prop :=
  (r.tables u).payload (idStr id) = some json ∧ idStr id ∈ (r.tables u).schedule.members ∧
    ((r.tables u).attempts (idStr id)).isSome ∧ u ∈ r.pendingUsers

/-- Where the tables come from. -/
structure TablesOk (r : Redis) (τ : List Event) : Prop where
  payload : ∀ {u i json}, (r.tables u).payload i = some json →
    ∃ id, i = idStr id ∧ .stored u id json ∈ τ
  schedule : ∀ {u i}, i ∈ (r.tables u).schedule.members → Known τ u i
  kept : ∀ {u id json}, .stored u id json ∈ τ → (∀ ids, .acked u ids ∈ τ → id ∉ ids) →
    Kept r u id json

structure Base (s : State) (τ : List Event) : Prop where
  ids : ∀ {u id json}, .stored u id json ∈ τ → id ∈ s.storedIds
  message : ∀ {u id json}, .stored u id json ∈ τ → id ≠ 0 ∧ IsMessage id json
  user : ∀ {u id json}, .stored u id json ∈ τ → u ≠ []
  unique : ∀ {u u' id json json'}, .stored u id json ∈ τ → .stored u' id json' ∈ τ →
    u = u' ∧ json = json'
  received : ∀ {u id json}, .received u id json ∈ τ → .stored u id json ∈ τ
  tables : TablesOk s.redis τ
  threads : ∀ t, PcOk τ (s.threads t)

/-! ## 4. What a dispatch does to the tables -/

inductive Touch (τ : List Event) (r : Redis) : Redis → Prop where
  | same : Touch τ r r
  | zrem {u i : Bytes} (h : WasAcked τ u i) : Touch τ r (r.zremSchedule u i)
  | hset {u i : Bytes} (n : Int) (h : Known τ u i) : Touch τ r (r.hsetAttempt u i n)
  | zadd {u i : Bytes} (due : Int) (h : Known τ u i) : Touch τ r (r.zaddSchedule u i due)

theorem Touch.payload {τ : List Event} {r r' : Redis} (h : Touch τ r r') (u : Bytes) :
    (r'.tables u).payload = (r.tables u).payload := by
  cases h with
  | same => rfl
  | zrem h => rw [Redis.zremSchedule, Redis.modify_apply]; split <;> rfl
  | hset n h => rw [Redis.hsetAttempt, Redis.modify_apply]; split <;> rfl
  | zadd due h => rw [Redis.zaddSchedule, Redis.modify_apply]; split <;> rfl

theorem Touch.pendingUsers {τ : List Event} {r r' : Redis} (h : Touch τ r r') :
    r'.pendingUsers = r.pendingUsers := by
  cases h <;> rfl

theorem Touch.schedule {τ : List Event} {r r' : Redis} (h : Touch τ r r') {u i : Bytes}
    (hi : i ∈ (r'.tables u).schedule.members) :
    i ∈ (r.tables u).schedule.members ∨ Known τ u i := by
  cases h with
  | same => exact Or.inl hi
  | zrem h =>
    rw [Redis.zremSchedule, Redis.modify_apply] at hi
    split at hi
    · exact Or.inl (SortedSet.mem_members_zrem.mp hi).1
    · exact Or.inl hi
  | hset n h =>
    rw [Redis.hsetAttempt, Redis.modify_apply] at hi
    split at hi <;> exact Or.inl hi
  | zadd due h =>
    rw [Redis.zaddSchedule, Redis.modify_apply] at hi
    split at hi
    · next hu =>
      rcases SortedSet.mem_members_zadd.mp hi with rfl | hi
      · rw [hu]; exact Or.inr h
      · exact Or.inl hi
    · exact Or.inl hi

/-- A clean-up takes no id out of the schedule that nobody acknowledged. -/
theorem Touch.schedule_kept {τ : List Event} {r r' : Redis} (h : Touch τ r r') {u i : Bytes}
    (hna : ¬ WasAcked τ u i) (hs : i ∈ (r.tables u).schedule.members) :
    i ∈ (r'.tables u).schedule.members := by
  cases h with
  | same => exact hs
  | zrem h =>
    rw [Redis.zremSchedule, Redis.modify_apply]
    split
    · next hu =>
      refine SortedSet.mem_members_zrem.mpr ⟨hs, ?_⟩
      rintro rfl
      exact hna (hu ▸ h)
    · exact hs
  | hset n h => rw [Redis.hsetAttempt, Redis.modify_apply]; split <;> exact hs
  | zadd due h =>
    rw [Redis.zaddSchedule, Redis.modify_apply]
    split
    · exact SortedSet.mem_members_zadd.mpr (Or.inr hs)
    · exact hs

theorem Touch.attempts_kept {τ : List Event} {r r' : Redis} (h : Touch τ r r') {u i : Bytes}
    (ha : ((r.tables u).attempts i).isSome) : ((r'.tables u).attempts i).isSome := by
  cases h with
  | same => exact ha
  | zrem h => rw [Redis.zremSchedule, Redis.modify_apply]; split <;> exact ha
  | @hset v j n h =>
    rw [Redis.hsetAttempt, Redis.modify_apply]
    split
    · by_cases hj : i = j
      · subst hj
        simp
      · simpa [Function.update_of_ne hj] using ha
    · exact ha
  | zadd due h => rw [Redis.zaddSchedule, Redis.modify_apply]; split <;> exact ha

theorem Touch.kept {τ : List Event} {r r' : Redis} (h : Touch τ r r') {u : Bytes} {id : UInt64}
    {json : Bytes} (hna : ∀ ids, .acked u ids ∈ τ → id ∉ ids) (hk : Kept r u id json) :
    Kept r' u id json := by
  obtain ⟨hp, hs, ha, hu⟩ := hk
  have hna' : ¬ WasAcked τ u (idStr id) := by
    rintro ⟨id', ids, hid, hack, hmem⟩
    rw [← idStr_inj hid] at hmem
    exact hna ids hack hmem
  exact ⟨by rw [h.payload]; exact hp, h.schedule_kept hna' hs, h.attempts_kept ha,
    by rw [h.pendingUsers]; exact hu⟩

/-- Events that neither store, nor acknowledge, nor answer the sender. -/
def Quiet : Event → Prop
  | .stored .. => False
  | .received .. => False
  | .acked .. => False
  | _ => True

theorem rangeIds_sublist (t : PendingTables) (includeAll : Bool) (now : Int) :
    (rangeIds t includeAll now).Sublist t.schedule.members := by
  unfold rangeIds
  split
  · exact SortedSet.zrange_sublist _ _
  · exact SortedSet.zrangebyscore_sublist _ _ _

/-- The ids of the schedule hold no NUL. -/
theorem TablesOk.map_cStr {r : Redis} {τ : List Event} (ht : TablesOk r τ) {u : Bytes}
    {ids : List Bytes} (h : ids.Sublist (r.tables u).schedule.members) : ids.map cStr = ids := by
  conv_rhs => rw [← List.map_id ids]
  refine List.map_congr_left fun i hi => ?_
  obtain ⟨id, json, rfl, -⟩ := ht.schedule (h.subset hi)
  exact cStr_toDecimal _

/-- What a step of a dispatch can do, by the phase it is in. -/
inductive DispatchMove (r : Redis) (call : Nat) (user : Bytes) (includeAll : Bool) (now : Int) :
    Phase → Option Phase → Redis → List Event → Prop where
  | refuse (huser : user = []) : DispatchMove r call user includeAll now .range none r []
  | range (huser : user ≠ []) :
      DispatchMove r call user includeAll now .range
        (some (.fetch ((rangeIds (r.tables (cStr user)) includeAll now).map cStr) [])) r []
  | fetched {msgs} :
      DispatchMove r call user includeAll now (.fetch [] msgs) (some (.serve msgs)) r []
  | fetch {id ids msgs json} (hp : (r.tables (cStr user)).payload id = some json) :
      DispatchMove r call user includeAll now (.fetch (id :: ids) msgs)
        (some (.fetch ids (msgs ++ [cStr json]))) r [.hget call (cStr user) id]
  | miss {id ids msgs} (hp : (r.tables (cStr user)).payload id = none) :
      DispatchMove r call user includeAll now (.fetch (id :: ids) msgs)
        (some (.unschedule id ids msgs)) r [.hget call (cStr user) id]
  | unschedule {id ids msgs} :
      DispatchMove r call user includeAll now (.unschedule id ids msgs) (some (.fetch ids msgs))
        (r.zremSchedule (cStr user) id) []
  | done : DispatchMove r call user includeAll now (.serve []) none r []
  | skip {msg msgs id} (hid : extractJsonValue msg (ascii "msg_id") = id)
      (hskip : id = [] ∨
        kRetryMaxAttempts ≤ ((r.tables (cStr user)).attempts id).getD 0 ∧ includeAll = false) :
      DispatchMove r call user includeAll now (.serve (msg :: msgs)) (some (.serve msgs)) r []
  | serve {msg msgs id attempt} (hid : extractJsonValue msg (ascii "msg_id") = id) (hne : id ≠ [])
      (hattempt : ((r.tables (cStr user)).attempts id).getD 0 = attempt)
      (hmax : ¬ (kRetryMaxAttempts ≤ attempt ∧ includeAll = false)) :
      DispatchMove r call user includeAll now (.serve (msg :: msgs)) (some (.send msg id attempt msgs))
        r []
  | send {msg id attempt msgs} :
      DispatchMove r call user includeAll now (.send msg id attempt msgs)
        (some (.count id (if includeAll then attempt else attempt + 1) (now + kRetryDelayMs) msgs)) r
        [.sent call (cStr user) id msg]
  | count {id nextAttempt nextDue msgs} :
      DispatchMove r call user includeAll now (.count id nextAttempt nextDue msgs)
        (some (.reschedule id nextDue msgs)) (r.hsetAttempt (cStr user) id nextAttempt) []
  | reschedule {id nextDue msgs} :
      DispatchMove r call user includeAll now (.reschedule id nextDue msgs) (some (.serve msgs))
        (r.zaddSchedule (cStr user) id nextDue) []

theorem dispatchMove {r r' : Redis} {call : Nat} {user : Bytes} {includeAll : Bool} {now : Int}
    {phase : Phase} {p : Option Phase} {es : List Event}
    (h : dispatchStep r ⟨call, user, includeAll, phase⟩ now = (p, r', es)) :
    DispatchMove r call user includeAll now phase p r' es := by
  cases phase with
  | range =>
    simp only [dispatchStep] at h
    split at h
    · next huser =>
      simp only [Prod.mk.injEq] at h
      obtain ⟨rfl, rfl, rfl⟩ := h
      exact .refuse huser
    · next huser =>
      simp only [Prod.mk.injEq] at h
      obtain ⟨rfl, rfl, rfl⟩ := h
      exact .range huser
  | fetch ids msgs =>
    cases ids with
    | nil =>
      simp only [dispatchStep, Prod.mk.injEq] at h
      obtain ⟨rfl, rfl, rfl⟩ := h
      exact .fetched
    | cons i ids =>
      simp only [dispatchStep] at h
      split at h
      · next json hp =>
        simp only [Prod.mk.injEq] at h
        obtain ⟨rfl, rfl, rfl⟩ := h
        exact .fetch hp
      · next hp =>
        simp only [Prod.mk.injEq] at h
        obtain ⟨rfl, rfl, rfl⟩ := h
        exact .miss hp
  | unschedule i ids msgs =>
    simp only [dispatchStep, Prod.mk.injEq] at h
    obtain ⟨rfl, rfl, rfl⟩ := h
    exact .unschedule
  | serve msgs =>
    cases msgs with
    | nil =>
      simp only [dispatchStep, Prod.mk.injEq] at h
      obtain ⟨rfl, rfl, rfl⟩ := h
      exact .done
    | cons msg msgs =>
      simp only [dispatchStep] at h
      split at h
      · next hnil =>
        simp only [Prod.mk.injEq] at h
        obtain ⟨rfl, rfl, rfl⟩ := h
        exact .skip rfl (Or.inl hnil)
      · next hne =>
        split at h
        · next hmax =>
          simp only [Prod.mk.injEq] at h
          obtain ⟨rfl, rfl, rfl⟩ := h
          exact .skip rfl (Or.inr hmax)
        · next hmax =>
          simp only [Prod.mk.injEq] at h
          obtain ⟨rfl, rfl, rfl⟩ := h
          exact .serve rfl hne rfl hmax
  | send msg i attempt msgs =>
    simp only [dispatchStep, Prod.mk.injEq] at h
    obtain ⟨rfl, rfl, rfl⟩ := h
    exact .send
  | count i nextAttempt nextDue msgs =>
    simp only [dispatchStep, Prod.mk.injEq] at h
    obtain ⟨rfl, rfl, rfl⟩ := h
    exact .count
  | reschedule i nextDue msgs =>
    simp only [dispatchStep, Prod.mk.injEq] at h
    obtain ⟨rfl, rfl, rfl⟩ := h
    exact .reschedule

/-- **One step of a dispatch**: what it does to the tables, and what the thread knows
    afterwards. -/
theorem dispatchStep_spec {r r' : Redis} {τ es : List Event} {d : Dispatch} {now : Int}
    {p : Option Phase} (ht : TablesOk r τ) (hmsg : ∀ {u id json}, .stored u id json ∈ τ → IsMessage id json)
    (hd : PhaseOk τ (cStr d.user) d.phase) (h : dispatchStep r d now = (p, r', es)) :
    Touch τ r r' ∧ (∀ e ∈ es, Quiet e) ∧ ∀ q, p = some q → PhaseOk τ (cStr d.user) q := by
  obtain ⟨call, user, includeAll, phase⟩ := d
  dsimp only at hd
  cases dispatchMove h with
  | refuse _ => exact ⟨.same, by simp, fun q hq => absurd hq (by simp)⟩
  | range _ =>
    refine ⟨.same, by simp, fun q hq => ?_⟩
    obtain rfl := Option.some.inj hq
    have hsub := rangeIds_sublist (r.tables (cStr user)) includeAll now
    refine ⟨?_, by simp [Phase.msgs], by simp [Phase.busy], by simp [Phase.stale]⟩
    intro i hi
    rw [Phase.todo, ht.map_cStr hsub] at hi
    exact ht.schedule (hsub.subset hi)
  | fetched =>
    refine ⟨.same, by simp, fun q hq => ?_⟩
    obtain rfl := Option.some.inj hq
    exact ⟨by simp [Phase.todo], hd.msgs, by simp [Phase.busy], by simp [Phase.stale]⟩
  | @fetch i ids msgs json hp =>
    refine ⟨.same, by simp [Quiet], fun q hq => ?_⟩
    obtain rfl := Option.some.inj hq
    refine ⟨fun j hj => hd.todo j (List.mem_cons_of_mem _ hj), ?_, by simp [Phase.busy],
      by simp [Phase.stale]⟩
    intro m hm
    rcases List.mem_append.mp hm with hm | hm
    · exact hd.msgs m hm
    · obtain ⟨id, -, hst⟩ := ht.payload hp
      rw [List.mem_singleton] at hm
      exact ⟨id, json, hm, hst⟩
  | @miss i ids msgs hp =>
    refine ⟨.same, by simp [Quiet], fun q hq => ?_⟩
    obtain rfl := Option.some.inj hq
    refine ⟨fun j hj => hd.todo j (List.mem_cons_of_mem _ hj), hd.msgs, by simp [Phase.busy], ?_⟩
    intro j hj
    obtain rfl := Option.some.inj hj
    -- stored, and without a payload: someone acknowledged it
    obtain ⟨id, json, rfl, hst⟩ := hd.todo i List.mem_cons_self
    by_contra hna
    have hkept := ht.kept hst fun ids hack hid => hna ⟨id, ids, rfl, hack, hid⟩
    rw [hkept.1] at hp
    exact absurd hp (by simp)
  | unschedule =>
    refine ⟨.zrem (hd.stale _ rfl), by simp, fun q hq => ?_⟩
    obtain rfl := Option.some.inj hq
    exact ⟨hd.todo, hd.msgs, by simp [Phase.busy], by simp [Phase.stale]⟩
  | done => exact ⟨.same, by simp, fun q hq => absurd hq (by simp)⟩
  | skip _ _ =>
    refine ⟨.same, by simp, fun q hq => ?_⟩
    obtain rfl := Option.some.inj hq
    exact ⟨by simp [Phase.todo], fun m hm => hd.msgs m (List.mem_cons_of_mem _ hm),
      by simp [Phase.busy], by simp [Phase.stale]⟩
  | @serve msg msgs i attempt hid _ _ _ =>
    refine ⟨.same, by simp, fun q hq => ?_⟩
    obtain rfl := Option.some.inj hq
    refine ⟨by simp [Phase.todo], hd.msgs, ?_, by simp [Phase.stale]⟩
    intro j hj
    obtain rfl := Option.some.inj hj
    obtain ⟨id, json, rfl, hst⟩ := hd.msgs msg List.mem_cons_self
    exact ⟨id, json, hid.symm.trans (hmsg hst).extract_cStr, hst⟩
  | send =>
    refine ⟨.same, by simp [Quiet], fun q hq => ?_⟩
    obtain rfl := Option.some.inj hq
    exact ⟨by simp [Phase.todo], fun m hm => hd.msgs m (List.mem_cons_of_mem _ hm), hd.busy,
      by simp [Phase.stale]⟩
  | count =>
    refine ⟨.hset _ (hd.busy _ rfl), by simp, fun q hq => ?_⟩
    obtain rfl := Option.some.inj hq
    exact ⟨by simp [Phase.todo], hd.msgs, hd.busy, by simp [Phase.stale]⟩
  | reschedule =>
    refine ⟨.zadd _ (hd.busy _ rfl), by simp, fun q hq => ?_⟩
    obtain rfl := Option.some.inj hq
    exact ⟨by simp [Phase.todo], hd.msgs, by simp [Phase.busy], by simp [Phase.stale]⟩

/-! ## 5. The scripts -/

/-- A new message is in all four tables; nobody else's message moves. -/
theorem storeScript_kept {r : Redis} {u v : Bytes} {i json : Bytes} {due : Int} {id : UInt64}
    {json' : Bytes} (hne : idStr id ≠ i) (hk : Kept r v id json') :
    Kept (r.storeScript u i json due) v id json' := by
  obtain ⟨hp, hs, ha, hu⟩ := hk
  have hu' : v ∈ (r.storeScript u i json due).pendingUsers := by
    simp only [Redis.storeScript]
    split
    · exact hu
    · exact List.mem_cons_of_mem _ hu
  unfold Kept
  rw [Redis.storeScript_tables]
  split
  · refine ⟨?_, SortedSet.mem_members_zadd.mpr (Or.inr hs), ?_, hu'⟩
    · dsimp only
      rw [Function.update_of_ne hne]
      exact hp
    · dsimp only
      rw [Function.update_of_ne hne]
      exact ha
  · exact ⟨hp, hs, ha, hu'⟩

theorem storeScript_new (r : Redis) (u json : Bytes) (due : Int) (id : UInt64) :
    Kept (r.storeScript u (idStr id) json due) u id json := by
  have hu : u ∈ (r.storeScript u (idStr id) json due).pendingUsers := by
    simp only [Redis.storeScript]
    split
    · assumption
    · exact List.mem_cons_self
  unfold Kept
  rw [Redis.storeScript_tables, if_pos rfl]
  refine ⟨Function.update_self .., SortedSet.mem_members_zadd.mpr (Or.inl rfl), ?_, hu⟩
  dsimp only
  rw [Function.update_self]
  rfl

theorem TablesOk.storeScript {r : Redis} {τ : List Event} (ht : TablesOk r τ) {u : Bytes}
    {id : UInt64} {json : Bytes} (due : Int) (hnew : ∀ {u' json'}, .stored u' id json' ∉ τ) :
    TablesOk (r.storeScript u (idStr id) json due) (τ ++ [.stored u id json]) := by
  have hmem : Event.stored u id json ∈ τ ++ [Event.stored u id json] := by simp
  refine ⟨?_, ?_, ?_⟩
  · intro v i json' hp
    rw [Redis.storeScript_tables] at hp
    split at hp
    · next hv =>
      dsimp only at hp
      by_cases hi : i = idStr id
      · subst hi hv
        rw [Function.update_self, Option.some.injEq] at hp
        subst hp
        exact ⟨id, rfl, hmem⟩
      · rw [Function.update_of_ne hi] at hp
        obtain ⟨id', hi', hst⟩ := ht.payload hp
        exact ⟨id', hi', List.mem_append_left _ hst⟩
    · obtain ⟨id', hi', hst⟩ := ht.payload hp
      exact ⟨id', hi', List.mem_append_left _ hst⟩
  · intro v i hs
    rw [Redis.storeScript_tables] at hs
    split at hs
    · next hv =>
      rcases SortedSet.mem_members_zadd.mp hs with rfl | hs
      · exact ⟨id, json, rfl, hv ▸ hmem⟩
      · exact (ht.schedule hs).mono _
    · exact (ht.schedule hs).mono _
  · intro v id' json' hst hna
    rcases List.mem_append.mp hst with hst | hst
    · have hne : idStr id' ≠ idStr id := fun h => hnew (idStr_inj h ▸ hst)
      exact storeScript_kept hne (ht.kept hst fun ids h => hna ids (List.mem_append_left _ h))
    · simp only [List.mem_singleton, Event.stored.injEq] at hst
      obtain ⟨rfl, rfl, rfl⟩ := hst
      exact storeScript_new ..

theorem mem_ackedIds {ids : List UInt64} {id : UInt64} :
    idStr id ∈ ackedIds ids ↔ id ∈ ids ∧ id ≠ 0 := by
  unfold ackedIds
  constructor
  · intro h
    obtain ⟨id', hid', heq⟩ := List.mem_map.mp h
    rw [← idStr_inj heq]
    simpa using hid'
  · intro h
    exact List.mem_map_of_mem (f := fun id : UInt64 => toDecimal id.toNat) (by simpa using h)

theorem TablesOk.ackScript {r : Redis} {τ : List Event} (ht : TablesOk r τ) (u : Bytes)
    (ids : List UInt64) : TablesOk (r.ackScript u (ackedIds ids)) (τ ++ [.acked u ids]) := by
  have hsame : ∀ {v}, v ≠ u → (r.ackScript u (ackedIds ids)).tables v = r.tables v :=
    fun hv => Redis.modify_other _ _ hv
  have hstored : ∀ {v id json}, Event.stored v id json ∈ τ ++ [Event.acked u ids] →
      Event.stored v id json ∈ τ := by
    intro v id json h
    simpa using h
  refine ⟨?_, ?_, ?_⟩
  · intro v i json hp
    have hp' : (r.tables v).payload i = some json := by
      by_cases hv : v = u
      · subst hv
        rw [Redis.ackScript_payload] at hp
        split at hp
        · exact absurd hp (by simp)
        · exact hp
      · rw [hsame hv] at hp; exact hp
    obtain ⟨id, hi, hst⟩ := ht.payload hp'
    exact ⟨id, hi, List.mem_append_left _ hst⟩
  · intro v i hs
    have hs' : i ∈ (r.tables v).schedule.members := by
      by_cases hv : v = u
      · subst hv
        exact ((Redis.ackScript_schedule ..).mp hs).1
      · rw [hsame hv] at hs; exact hs
    exact (ht.schedule hs').mono _
  · intro v id json hst hna
    obtain ⟨hp, hs, ha, hu⟩ := ht.kept (hstored hst) fun ids' h => hna ids' (List.mem_append_left _ h)
    by_cases hv : v = u
    · subst hv
      have hnot : idStr id ∉ ackedIds ids := fun h =>
        hna ids (List.mem_append_right _ List.mem_cons_self) (mem_ackedIds.mp h).1
      refine ⟨?_, ?_, ?_, hu⟩
      · rw [Redis.ackScript_payload, if_neg hnot]; exact hp
      · exact (Redis.ackScript_schedule ..).mpr ⟨hs, hnot⟩
      · rw [Redis.ackScript_attempts, if_neg hnot]; exact ha
    · refine ⟨?_, ?_, ?_, hu⟩
      · rw [hsame hv]; exact hp
      · rw [hsame hv]; exact hs
      · rw [hsame hv]; exact ha

theorem mem_of_quiet {τ es : List Event} (hq : ∀ e ∈ es, Quiet e) {e : Event} (he : ¬ Quiet e)
    (h : e ∈ τ ++ es) : e ∈ τ :=
  (List.mem_append.mp h).resolve_right fun h' => he (hq e h')

theorem TablesOk.touch {r r' : Redis} {τ es : List Event} (ht : TablesOk r τ) (h : Touch τ r r')
    (hq : ∀ e ∈ es, Quiet e) : TablesOk r' (τ ++ es) := by
  refine ⟨?_, ?_, ?_⟩
  · intro u i json hp
    rw [h.payload] at hp
    obtain ⟨id, hi, hst⟩ := ht.payload hp
    exact ⟨id, hi, List.mem_append_left _ hst⟩
  · intro u i hs
    rcases h.schedule hs with hs | hk
    · exact (ht.schedule hs).mono _
    · exact hk.mono _
  · intro u id json hst hna
    have hna' : ∀ ids, Event.acked u ids ∈ τ → id ∉ ids :=
      fun ids h => hna ids (List.mem_append_left _ h)
    exact h.kept hna' (ht.kept (mem_of_quiet hq (by simp [Quiet]) hst) hna')

/-! ## 6. Every step -/

/-- A step that stores nothing, acknowledges nothing and answers no sender. -/
theorem Base.quiet {s s' : State} {τ es : List Event} (hi : Base s τ) (hq : ∀ e ∈ es, Quiet e)
    (hids : s'.storedIds = s.storedIds) (htab : TablesOk s'.redis (τ ++ es))
    (hth : ∀ t, PcOk (τ ++ es) (s'.threads t)) : Base s' (τ ++ es) := by
  have hst : ∀ {u id json}, Event.stored u id json ∈ τ ++ es → Event.stored u id json ∈ τ :=
    fun h => mem_of_quiet hq (by simp [Quiet]) h
  refine ⟨fun h => by rw [hids]; exact hi.ids (hst h), fun h => hi.message (hst h), fun h => hi.user (hst h),
    fun h h' => hi.unique (hst h) (hst h'), ?_, htab, hth⟩
  intro u id json h
  exact List.mem_append_left _ (hi.received (mem_of_quiet hq (by simp [Quiet]) h))

/-- …and only moves a thread. -/
theorem Base.moveThread {s : State} {τ : List Event} (hi : Base s τ) {tid n : Nat} {pc : Pc}
    (hpc : PcOk τ pc) : Base (setThread { s with nextCall := n } tid pc) (τ ++ []) := by
  refine hi.quiet (by simp) rfl (hi.tables.touch .same (by simp)) ?_
  exact setThread_all (fun t => (hi.threads t).mono []) (hpc.mono [])

theorem Base.store {s s' : State} {τ es : List Event} {tid : Nat} {target : Bytes} {id : UInt64}
    {json : Bytes} {now : Int} (hi : Base s τ) (hmsg : IsMessage id json)
    (h : store s tid target id json now = some (s', es)) : Base s' (τ ++ es) := by
  unfold Pending.store at h
  rw [effectiveId_eq hmsg] at h
  split at h
  · simp only [Option.some.injEq, Prod.mk.injEq] at h
    obtain ⟨rfl, rfl⟩ := h
    exact hi.moveThread (n := s.nextCall) trivial
  · next hgood =>
    split at h
    · exact absurd h (by simp)
    · next hfresh =>
      simp only [Option.some.injEq, Prod.mk.injEq] at h
      obtain ⟨rfl, rfl⟩ := h
      have hnew : ∀ {u' json'}, Event.stored u' id json' ∉ τ := fun h => hfresh (hi.ids h)
      have hid : id ≠ 0 := fun h => hgood (Or.inr (Or.inr (by rw [h]; rfl)))
      have hmem : Event.stored target id json ∈ τ ++ [Event.stored target id json] := by simp
      refine ⟨?_, ?_, ?_, ?_, ?_, hi.tables.storeScript _ hnew, ?_⟩
      · intro u id' json' h
        rcases List.mem_append.mp h with h | h
        · exact List.mem_cons_of_mem _ (hi.ids h)
        · simp only [List.mem_singleton, Event.stored.injEq] at h
          rw [h.2.1]
          exact List.mem_cons_self
      · intro u id' json' h
        rcases List.mem_append.mp h with h | h
        · exact hi.message h
        · simp only [List.mem_singleton, Event.stored.injEq] at h
          obtain ⟨rfl, rfl, rfl⟩ := h
          exact ⟨hid, hmsg⟩
      · intro u id' json' h
        rcases List.mem_append.mp h with h | h
        · exact hi.user h
        · simp only [List.mem_singleton, Event.stored.injEq] at h
          rw [h.1]
          exact fun h => hgood (Or.inl h)
      · intro u u' id' json' json'' h h'
        rcases List.mem_append.mp h with h | h <;> rcases List.mem_append.mp h' with h' | h'
        · exact hi.unique h h'
        · simp only [List.mem_singleton, Event.stored.injEq] at h'
          exact absurd h (h'.2.1 ▸ hnew)
        · simp only [List.mem_singleton, Event.stored.injEq] at h
          exact absurd h' (h.2.1 ▸ hnew)
        · simp only [List.mem_singleton, Event.stored.injEq] at h h'
          exact ⟨h.1.trans h'.1.symm, h.2.2.trans h'.2.2.symm⟩
      · intro u id' json' h
        have h' : Event.received u id' json' ∈ τ := by simpa using h
        exact List.mem_append_left _ (hi.received h')
      · exact setThread_all (fun t => (hi.threads t).mono _) hmem

theorem Base.ackPending {s : State} {τ : List Event} (hi : Base s τ) (u : Bytes)
    (ids : List UInt64) :
    Base { s with redis := s.redis.ackScript u (ackedIds ids) } (τ ++ [.acked u ids]) := by
  have hst : ∀ {v id json}, Event.stored v id json ∈ τ ++ [Event.acked u ids] →
      Event.stored v id json ∈ τ := by
    intro v id json h
    simpa using h
  refine ⟨fun h => hi.ids (hst h), fun h => hi.message (hst h), fun h => hi.user (hst h),
    fun h h' => hi.unique (hst h) (hst h'), ?_, hi.tables.ackScript u ids,
    fun t => (hi.threads t).mono _⟩
  intro v id json h
  have h' : Event.received v id json ∈ τ := by simpa using h
  exact List.mem_append_left _ (hi.received h')

theorem Base.ackSender {s : State} {τ : List Event} (hi : Base s τ) {tid : Nat} {u : Bytes}
    {id : UInt64} {json : Bytes} (hst : .stored u id json ∈ τ) :
    Base (setThread s tid (.sendTarget u id json)) (τ ++ [.received u id json]) := by
  have hst' : ∀ {v id' json'}, Event.stored v id' json' ∈ τ ++ [Event.received u id json] →
      Event.stored v id' json' ∈ τ := by
    intro v id' json' h
    simpa using h
  have hack : ∀ {v ids}, Event.acked v ids ∈ τ ++ [Event.received u id json] →
      Event.acked v ids ∈ τ := by
    intro v ids h
    simpa using h
  refine ⟨fun h => hi.ids (hst' h), fun h => hi.message (hst' h), fun h => hi.user (hst' h),
    fun h h' => hi.unique (hst' h) (hst' h'), ?_, ⟨?_, ?_, ?_⟩,
    setThread_all (fun t => (hi.threads t).mono _) (List.mem_append_left _ hst)⟩
  · intro v id' json' h
    rcases List.mem_append.mp h with h | h
    · exact List.mem_append_left _ (hi.received h)
    · simp only [List.mem_singleton, Event.received.injEq] at h
      obtain ⟨rfl, rfl, rfl⟩ := h
      exact List.mem_append_left _ hst
  · intro v i json' hp
    obtain ⟨id', hi', h⟩ := hi.tables.payload hp
    exact ⟨id', hi', List.mem_append_left _ h⟩
  · intro v i hs
    exact (hi.tables.schedule hs).mono _
  · intro v id' json' h hna
    exact hi.tables.kept (hst' h) fun ids h' => hna ids (List.mem_append_left _ h')

theorem Base.move {s s' : State} {τ es : List Event} {tid : Nat} {now : Int} {flag : Bool}
    (hi : Base s τ) (h : move s tid now flag = some (s', es)) : Base s' (τ ++ es) := by
  have hpc := hi.threads tid
  unfold Pending.move at h
  cases hth : s.threads tid with
  | idle => rw [hth] at h; exact absurd h (by simp)
  | store u id json =>
    rw [hth] at h hpc
    exact hi.store hpc h
  | ackSender u id json =>
    rw [hth] at h hpc
    simp only [Option.some.injEq, Prod.mk.injEq] at h
    obtain ⟨rfl, rfl⟩ := h
    cases flag with
    | true => exact hi.ackSender hpc
    | false => exact hi.moveThread (n := s.nextCall) hpc
  | sendTarget u id json =>
    rw [hth] at h
    simp only [Option.some.injEq, Prod.mk.injEq] at h
    obtain ⟨rfl, rfl⟩ := h
    have hq : ∀ e ∈ (if flag = true then [Event.sentDirect u id json] else []), Quiet e := by
      intro e he
      split at he
      · rw [List.mem_singleton] at he
        rw [he]
        trivial
      · exact absurd he (by simp)
    refine hi.quiet hq rfl (hi.tables.touch .same hq) ?_
    exact setThread_all (fun t => (hi.threads t).mono _) trivial
  | scan users =>
    rw [hth] at h
    cases users with
    | nil =>
      simp only [Option.some.injEq, Prod.mk.injEq] at h
      obtain ⟨rfl, rfl⟩ := h
      exact hi.moveThread (n := s.nextCall) trivial
    | cons u us =>
      dsimp only at h
      split at h
      · simp only [Option.some.injEq, Prod.mk.injEq] at h
        obtain ⟨rfl, rfl⟩ := h
        exact hi.moveThread ⟨by simp [Phase.todo], by simp [Phase.msgs], by simp [Phase.busy],
          by simp [Phase.stale]⟩
      · simp only [Option.some.injEq, Prod.mk.injEq] at h
        obtain ⟨rfl, rfl⟩ := h
        exact hi.moveThread (n := s.nextCall) trivial
  | dispatch d users =>
    rw [hth] at h hpc
    dsimp only at h
    cases hd : dispatchStep s.redis d now with
    | mk p q =>
      obtain ⟨r', es'⟩ := q
      obtain ⟨htouch, hq, hphase⟩ := dispatchStep_spec hi.tables (fun h => (hi.message h).2) hpc hd
      rw [hd] at h
      cases p with
      | some phase =>
        simp only [Option.some.injEq, Prod.mk.injEq] at h
        obtain ⟨rfl, rfl⟩ := h
        refine hi.quiet hq rfl (hi.tables.touch htouch hq) ?_
        exact setThread_all (fun t => (hi.threads t).mono _) ((hphase phase rfl).mono _)
      | none =>
        simp only [Option.some.injEq, Prod.mk.injEq] at h
        obtain ⟨rfl, rfl⟩ := h
        refine hi.quiet hq rfl (hi.tables.touch htouch hq) ?_
        exact setThread_all (fun t => (hi.threads t).mono _) trivial

/-- **One step keeps the invariant.** -/
theorem Base.step {s s' : State} {τ es : List Event} {l : Label} (hi : Base s τ)
    (h : step s l = some (s', es)) : Base s' (τ ++ es) := by
  cases l with
  | privateSend tid sender target content ts id =>
    simp only [Pending.step] at h
    split at h
    · split at h
      · exact absurd h (by simp)
      · simp only [Option.some.injEq, Prod.mk.injEq] at h
        obtain ⟨rfl, rfl⟩ := h
        exact hi.moveThread (n := s.nextCall) ⟨sender, target, content, ts, rfl⟩
    · exact absurd h (by simp)
  | loginDispatch tid user =>
    simp only [Pending.step] at h
    split at h
    · simp only [Option.some.injEq, Prod.mk.injEq] at h
      obtain ⟨rfl, rfl⟩ := h
      exact hi.moveThread ⟨by simp [Phase.todo], by simp [Phase.msgs], by simp [Phase.busy],
        by simp [Phase.stale]⟩
    · exact absurd h (by simp)
  | retryScan tid =>
    simp only [Pending.step] at h
    split at h
    · simp only [Option.some.injEq, Prod.mk.injEq] at h
      obtain ⟨rfl, rfl⟩ := h
      exact hi.moveThread (n := s.nextCall) trivial
    · exact absurd h (by simp)
  | ackPending tid user ids =>
    simp only [Pending.step] at h
    split at h
    · split at h
      · simp only [Option.some.injEq, Prod.mk.injEq] at h
        obtain ⟨rfl, rfl⟩ := h
        rw [List.append_nil]
        exact hi
      · simp only [Option.some.injEq, Prod.mk.injEq] at h
        obtain ⟨rfl, rfl⟩ := h
        exact hi.ackPending user ids
    · exact absurd h (by simp)
  | move tid now flag => exact hi.move h

theorem Base.start : Base {} [] :=
  ⟨fun h => absurd h (by simp), fun h => absurd h (by simp), fun h => absurd h (by simp),
    fun h => absurd h (by simp), fun h => absurd h (by simp), ⟨fun h => absurd h (by simp), fun h => absurd h (by
      simp [SortedSet.members]), fun h => absurd h (by simp)⟩, fun _ => trivial⟩

theorem Base.run {ls : List Label} {s : State} {τ : List Event}
    (hr : run Pending.step {} ls = some (s, τ)) : Base s τ := by
  have h := run_inv Base (fun hi hs => hi.step hs) Base.start hr
  rwa [List.nil_append] at h

/-! ## 7. No acknowledged message is lost -/

/-- **What a sender has been told `received` for is kept.** Whatever the threads do and in
    whatever order: if the sender of message `id` to `u` was sent the ACK and no
    `ackPendingMessage(u, ids)` with `id` in `ids` has run, the message is in the user's
    payloads with its stored text, in the schedule, in the attempts, and the user is in
    `chat:pending_users`. -/
theorem received_is_kept {ls : List Label} {s : State} {τ : List Event}
    (hr : run step {} ls = some (s, τ)) {u : Bytes} {id : UInt64} {json : Bytes}
    (hack : .received u id json ∈ τ) (hna : ∀ ids, .acked u ids ∈ τ → id ∉ ids) :
    (s.redis.tables u).payload (idStr id) = some json ∧
      idStr id ∈ (s.redis.tables u).schedule.members ∧
      ((s.redis.tables u).attempts (idStr id)).isSome ∧ u ∈ s.redis.pendingUsers := by
  have hi := Base.run hr
  exact hi.tables.kept (hi.received hack) hna

/-- One private message, stored and answered. -/
theorem received_is_kept_once : ∃ s τ, run step {}
    [.privateSend 0 (ascii "alice") (ascii "bob") (ascii "hi") (ascii "12:00") 7, .move 0 1000 false,
      .move 0 1000 true] = some (s, τ) ∧
    idStr 7 ∈ (s.redis.tables (ascii "bob")).schedule.members := by
  obtain ⟨⟨s, τ⟩, hr⟩ := Option.isSome_iff_exists.mp (show (run step {}
    [.privateSend 0 (ascii "alice") (ascii "bob") (ascii "hi") (ascii "12:00") 7, .move 0 1000 false,
      .move 0 1000 true]).isSome = true from rfl)
  have hτ : (run step {} [.privateSend 0 (ascii "alice") (ascii "bob") (ascii "hi") (ascii "12:00") 7,
      .move 0 1000 false, .move 0 1000 true]).map Prod.snd
      = some [.stored (ascii "bob") 7 (buildEnrichedChatBodyWithMsgId 7 (ascii "alice") (ascii "bob")
          (ascii "hi") (ascii "12:00")),
        .received (ascii "bob") 7 (buildEnrichedChatBodyWithMsgId 7 (ascii "alice") (ascii "bob")
          (ascii "hi") (ascii "12:00"))] := rfl
  rw [hr, Option.map_some, Option.some.injEq] at hτ
  dsimp only at hτ
  have hrec : Event.received (ascii "bob") 7 (buildEnrichedChatBodyWithMsgId 7 (ascii "alice")
      (ascii "bob") (ascii "hi") (ascii "12:00")) ∈ τ := by
    rw [hτ]
    exact List.mem_cons_of_mem _ List.mem_cons_self
  have hna : ∀ ids, Event.acked (ascii "bob") ids ∈ τ → 7 ∉ ids := by
    intro ids h
    rw [hτ] at h
    exact absurd h (by simp)
  exact ⟨s, τ, hr, (received_is_kept hr hrec hna).2.1⟩

end Pending
end EpollChat
