import EpollChat.Pending.PoolWaits
import EpollChat.Proof.Pending.Pools

/-!
# No connection lies idle while a thread sleeps

Both condition variables are lawful, so neither loses a wake-up: when a thread sleeps in
`getConnection` while a connection is free, a `notify_one` is on its way or another thread has
been woken. The pools themselves come to a halt in a deadlock only (`Sound.exists_work`), and with
23 connections to Redis there is none. So the threads always get on (`connections_never_stall`).
-/

namespace EpollChat
namespace Pools

open Lib Machine Condition

/-! ## 1. Steps of the pools -/

theorem step_spec {s s' : State} {l : Label} {es : List Unit} (h : step s l = some (s', es)) :
    (∃ l' r, l = .redis l' ∧ s.db (.server (redisThread l')) = .none ∧
      ConnectionPool.step s.redis l' = some (r, es) ∧ s' = { s with redis := r }) ∨
    (∃ t, l = .getConnection t ∧ mayUseDb s t = true ∧ s.db t = .none ∧ s' = setDb s t .waiting) ∨
    (∃ t, l = .acquire t ∧ s.db t = .waiting ∧ 0 < s.dbFree ∧
      s' = setDb { s with dbFree := s.dbFree - 1 } t .holding) ∨
    ∃ t, l = .release t ∧ s.db t = .holding ∧ s' = setDb { s with dbFree := s.dbFree + 1 } t .none := by
  cases l with
  | redis l =>
    simp only [step] at h
    split at h
    · rename_i hnone
      obtain ⟨⟨r, es'⟩, hr, heq⟩ := Option.map_eq_some_iff.mp h
      simp only [Prod.mk.injEq] at heq
      obtain ⟨rfl, rfl⟩ := heq
      exact .inl ⟨l, r, rfl, hnone, hr, rfl⟩
    · exact absurd h (by simp)
  | getConnection t =>
    simp only [step] at h
    split at h
    · rename_i hc
      simp only [Option.some.injEq, Prod.mk.injEq] at h
      exact .inr (.inl ⟨t, rfl, hc.2, hc.1, h.1.symm⟩)
    · exact absurd h (by simp)
  | acquire t =>
    simp only [step] at h
    split at h
    · rename_i hc
      simp only [Option.some.injEq, Prod.mk.injEq] at h
      exact .inr (.inr (.inl ⟨t, rfl, hc.1, hc.2, h.1.symm⟩))
    · exact absurd h (by simp)
  | release t =>
    simp only [step] at h
    split at h
    · rename_i hc
      simp only [Option.some.injEq, Prod.mk.injEq] at h
      exact .inr (.inr (.inr ⟨t, rfl, hc, h.1.symm⟩))
    · exact absurd h (by simp)

/-- Who waits for a connection to Redis does not go on without one. -/
theorem proceed_waiting {pc : ConnectionPool.Pc} (h : pc.waiting = true) (again : Bool) :
    ConnectionPool.proceed pc again = none := by
  cases pc with
  | friendsWait => rfl
  | callWait more => rfl
  | scanWait => rfl
  | dispatch retry stage =>
    cases stage with
    | fetchWait => rfl
    | attemptWait => rfl
    | connWait => rfl
    | setWait => rfl
    | _ => exact absurd h (by simp [ConnectionPool.Pc.waiting, ConnectionPool.Stage.waiting])
  | _ => exact absurd h (by simp [ConnectionPool.Pc.waiting])

/-- And who does not wait, and is not idle, does. -/
theorem proceed_isSome {pc : ConnectionPool.Pc} (hidle : pc ≠ .idle) (h : pc.waiting = false) :
    ∃ pc' n, ConnectionPool.proceed pc true = some (pc', n) := by
  cases pc with
  | idle => exact absurd rfl hidle
  | friends => exact ⟨_, _, rfl⟩
  | call more => cases more with
    | zero => exact ⟨_, _, rfl⟩
    | succ more => exact ⟨_, _, rfl⟩
  | scan => exact ⟨_, _, rfl⟩
  | dispatch retry stage =>
    cases stage with
    | fetching => exact ⟨_, _, rfl⟩
    | loop => exact ⟨_, _, rfl⟩
    | readingAttempt => exact ⟨_, _, rfl⟩
    | setting => exact ⟨_, _, rfl⟩
    | rescheduling => exact ⟨_, _, rfl⟩
    | _ => exact absurd h (by simp [ConnectionPool.Pc.waiting, ConnectionPool.Stage.waiting])
  | _ => exact absurd h (by simp [ConnectionPool.Pc.waiting])

theorem startTask_free {s s' : ConnectionPool.State} {t : ConnectionPool.Thread}
    {pc : ConnectionPool.Pc} {es : List Unit} (h : ConnectionPool.startTask s t pc = some (s', es)) :
    s.threads t = .idle ∧ s'.free = s.free := by
  unfold ConnectionPool.startTask at h
  split at h
  · rename_i hidle
    simp only [Option.some.injEq, Prod.mk.injEq] at h
    obtain ⟨rfl, -⟩ := h
    exact ⟨hidle, rfl⟩
  · exact absurd h (by simp)

/-- A thread that waits for Redis moves by taking a connection. -/
theorem acquire_of_waiting {s s' : ConnectionPool.State} {l : ConnectionPool.Label} {es : List Unit}
    (h : ConnectionPool.step s l = some (s', es)) (hw : (s.threads (redisThread l)).waiting = true) :
    l = .acquire (redisThread l) := by
  have hidle : ∀ {t pc}, ConnectionPool.startTask s t pc = some (s', es) →
      (s.threads t).waiting ≠ true := by
    intro t pc ht
    rw [(startTask_free ht).1]
    decide
  cases l with
  | login i => exact absurd hw (hidle h)
  | redisTask i more => exact absurd hw (hidle h)
  | retryScan => exact absurd hw (hidle h)
  | acquire t => rfl
  | proceed t again =>
    change (s.threads t).waiting = true at hw
    simp only [ConnectionPool.step, proceed_waiting hw] at h
    exact absurd h (by simp)

/-- The connections that are free afterwards. -/
theorem redis_free {s : State} {r : ConnectionPool.State} {l : ConnectionPool.Label} {es : List Unit}
    (h : ConnectionPool.step s.redis l = some (r, es)) :
    (∃ t, l = .acquire t ∧ (s.redis.threads t).waiting = true ∧ r.free + 1 = s.redis.free) ∨
      r.free = s.redis.free + released s (.redis l) := by
  cases l with
  | login i => exact .inr (startTask_free h).2
  | redisTask i more => exact .inr (startTask_free h).2
  | retryScan => exact .inr (startTask_free h).2
  | acquire t =>
    simp only [ConnectionPool.step] at h
    split at h
    · rename_i hc
      simp only [Option.some.injEq, Prod.mk.injEq] at h
      obtain ⟨rfl, -⟩ := h
      exact .inl ⟨t, rfl, hc.1, Nat.sub_add_cancel hc.2⟩
    · exact absurd h (by simp)
  | proceed t again =>
    simp only [ConnectionPool.step] at h
    split at h
    · exact absurd h (by simp)
    · rename_i pc n hp
      simp only [Option.some.injEq, Prod.mk.injEq] at h
      obtain ⟨rfl, -⟩ := h
      refine .inr ?_
      simp only [released, hp]
      rfl

/-- **The pools halt in a deadlock only.** -/
theorem Sound.exists_work {n m : Nat} {s : State} (hi : Sound n m s) (hm : 0 < m)
    (hnot : ¬ ConnectionPool.Deadlocked s.redis) {t : Thread} (hb : Busy s t) :
    ∃ l : Label, l.isWork = true ∧ (Pools.step s l).isSome = true := by
  by_contra hnone
  push Not at hnone
  have hholding : ∀ u, s.db u ≠ .holding := fun u hu =>
    hnone (.release u) rfl (by rw [Pools.step, if_pos hu]; rfl)
  have hdb : ∀ u, s.db u = .none := by
    intro u
    cases hu : s.db u with
    | none => rfl
    | holding => exact absurd hu (hholding u)
    | waiting =>
      -- Nobody has what is not in the pool.
      have hzero : ∑ v, (s.db v).held = 0 := by
        refine Finset.sum_eq_zero fun v _ => ?_
        cases hv : s.db v with
        | holding => exact absurd hv (hholding v)
        | _ => rfl
      have htotal := hi.total
      exact absurd (by rw [Pools.step, if_pos ⟨hu, by omega⟩]; rfl) (hnone (.acquire u) rfl)
  have hwaiting : ∀ u, s.redis.threads u ≠ .idle → (s.redis.threads u).waiting = true := by
    intro u hidle
    by_contra hw
    obtain ⟨pc, k, hp⟩ := proceed_isSome hidle (by simpa using hw)
    refine hnone (.redis (.proceed u true)) rfl ?_
    rw [Pools.step, if_pos (hdb _)]
    simp only [ConnectionPool.step, hp]
    rfl
  rcases hb with hb | ⟨u, rfl, hidle⟩
  · exact hb (hdb t)
  · refine hnot ⟨?_, fun v hv => hwaiting v ?_⟩
    · by_contra hfree
      refine hnone (.redis (.acquire u)) rfl ?_
      rw [Pools.step, if_pos (hdb _)]
      simp only [ConnectionPool.step, if_pos (And.intro (hwaiting u hidle) (Nat.pos_of_ne_zero hfree))]
      rfl
    · intro hv'
      rw [hv'] at hv
      exact absurd hv (by simp [ConnectionPool.Pc.held])

/-! ## 2. The condition variable of the Redis pool -/

theorem waitsFor_redis_iff {s : State} {t : Thread} :
    waitsFor s t = some .redis ↔
      ∃ u, t = .server u ∧ s.db t = .none ∧ (s.redis.threads u).waiting = true := by
  constructor
  · intro h
    cases t with
    | flush =>
      unfold waitsFor at h
      split at h <;> simp_all
    | server u =>
      refine ⟨u, rfl, ?_, waiting_of_waitsFor_redis h⟩
      unfold waitsFor at h
      split at h
      · exact absurd h (by simp)
      · exact absurd h (by simp)
      · assumption
      · assumption
  · rintro ⟨u, rfl, hdb, hw⟩
    unfold waitsFor
    rw [hdb]
    exact if_pos hw

theorem waitsFor_db_iff {s : State} {t : Thread} : waitsFor s t = some .db ↔ s.db t = .waiting := by
  constructor
  · intro h
    unfold waitsFor at h
    split at h
    · assumption
    · exact absurd h (by simp)
    · split at h <;> exact absurd h (by simp)
    · exact absurd h (by simp)
  · intro h
    unfold waitsFor
    rw [h]

/-- Only `acquire` ends the wait for a connection to Redis. -/
theorem waitsFor_redis_stays {s s' : State} {l : Label} {es : List Unit} {t : Thread}
    (h : step s l = some (s', es)) (hw : waitsFor s t = some .redis)
    (hother : ∀ u, t = .server u → l ≠ .redis (.acquire u)) : waitsFor s' t = some .redis := by
  obtain ⟨u, rfl, hdb, hwaiting⟩ := waitsFor_redis_iff.mp hw
  have hdb_other : ∀ {v stage k}, v ≠ .server u →
      waitsFor (setDb { s with dbFree := k } v stage) (.server u) = some .redis := by
    intro v stage k hv
    refine waitsFor_redis_iff.mpr ⟨u, rfl, ?_, hwaiting⟩
    exact (Function.update_of_ne (Ne.symm hv) ..).trans hdb
  rcases step_spec h with ⟨l', r, rfl, -, hr, rfl⟩ | ⟨v, -, hmay, -, rfl⟩ | ⟨v, -, hv, -, rfl⟩ |
    ⟨v, -, hv, rfl⟩
  · refine waitsFor_redis_iff.mpr ⟨u, rfl, hdb, ?_⟩
    by_cases hu : u = redisThread l'
    · subst hu
      exact absurd (congrArg Label.redis (acquire_of_waiting hr hwaiting)) (hother _ rfl)
    · show (r.threads u).waiting = true
      rw [redis_frame hr hu]
      exact hwaiting
  · refine hdb_other (k := s.dbFree) ?_
    rintro rfl
    rw [not_waiting_of_mayUseDb hmay] at hwaiting
    exact absurd hwaiting (by simp)
  · refine hdb_other ?_
    rintro rfl
    rw [hdb] at hv
    exact absurd hv (by simp)
  · refine hdb_other ?_
    rintro rfl
    rw [hdb] at hv
    exact absurd hv (by simp)

theorem redisCond_lawful (n m : Nat) : redisCond.Lawful (Sound n m) := by
  refine ⟨fun hi h => hi.step h, ?_, ?_, ?_, fun _ _ h => absurd h (by simp [redisCond])⟩
  · intro s l s' es t hi h hr
    change step s l = some (s', es) at h
    obtain ⟨u, rfl, rfl⟩ : ∃ u, l = .redis (.acquire u) ∧ t = .server u := by
      simp only [redisCond] at hr
      split at hr
      · rename_i u
        exact ⟨u, rfl, (Option.some.inj hr).symm⟩
      · exact absurd hr (by simp)
    rcases step_spec h with ⟨l', r, heq, hdb, hr', rfl⟩ | ⟨v, hl, -⟩ | ⟨v, hl, -⟩ | ⟨v, hl, -⟩
    · obtain rfl := Label.redis.inj heq
      rcases redis_free hr' with ⟨v, hv, hw, hfree⟩ | hfree
      · obtain rfl := ConnectionPool.Label.acquire.inj hv
        refine ⟨decide_eq_true (waitsFor_redis_iff.mpr ⟨u, rfl, hdb, hw⟩), .inr ?_⟩
        show 0 < s.redis.free ∧ r.free + 1 ≤ s.redis.free + 0
        omega
      · simp only [ConnectionPool.step] at hr'
        split at hr'
        · rename_i hc
          simp only [Option.some.injEq, Prod.mk.injEq] at hr'
          obtain ⟨rfl, -⟩ := hr'
          have hpos := hc.2
          change s.redis.free - 1 = s.redis.free + 0 at hfree
          omega
        · exact absurd hr' (by simp)
    · exact absurd hl (by simp)
    · exact absurd hl (by simp)
    · exact absurd hl (by simp)
  · intro s l s' es t hi h hr hw
    refine decide_eq_true (waitsFor_redis_stays h (of_decide_eq_true hw) ?_)
    rintro u rfl rfl
    exact hr rfl
  · intro s l s' es hi h
    change step s l = some (s', es) at h
    rcases step_spec h with ⟨l', r, rfl, -, hr, rfl⟩ | ⟨v, -, -, -, rfl⟩ | ⟨v, -, -, -, rfl⟩ |
      ⟨v, -, -, rfl⟩
    · show r.free ≤ s.redis.free + released s (.redis l')
      rcases redis_free hr with ⟨-, -, -, hfree⟩ | hfree
      · omega
      · exact Nat.le_of_eq hfree
    · exact Nat.le_add_right ..
    · exact Nat.le_add_right ..
    · exact Nat.le_add_right ..

theorem redisCond_resumes (n m : Nat) : redisCond.Resumes (Sound n m) Label.isWork := by
  intro s t hi hw hpred
  obtain ⟨u, rfl, hdb, hwaiting⟩ := waitsFor_redis_iff.mp (of_decide_eq_true hw)
  have hfree : 0 < s.redis.free := by
    rcases hpred with hflood | hfree
    · exact absurd hflood (by simp [redisCond])
    · exact hfree
  have hstep : (step s (.redis (.acquire u))).isSome = true := by
    rw [step, if_pos (show s.db (.server (redisThread (.acquire u))) = .none from hdb),
      ConnectionPool.step, if_pos ⟨hwaiting, hfree⟩]
    rfl
  obtain ⟨⟨b, es⟩, hb⟩ := Option.isSome_iff_exists.mp hstep
  exact ⟨.redis (.acquire u), b, es, rfl, rfl, hb⟩

/-! ## 3. The condition variable of the MySQL pool -/

/-- A step of the machine below is one of the pools, or changes nothing in them. -/
theorem redisCond_cases {s s' : Condition.State State Thread} {l : Condition.Label Label Thread}
    {es : List Unit} (h : redisCond.waitStep s l = some (s', es)) :
    (∃ l', l = .step l' ∧ step s.base l' = some (s'.base, es)) ∨ (l.base = none ∧ s'.base = s.base) := by
  cases hl : l.base with
  | some l' =>
    cases l with
    | step l =>
      obtain ⟨b, hb, -, rfl⟩ := step_cases h
      exact .inl ⟨l, rfl, hb⟩
    | _ => exact absurd hl (by simp [Condition.Label.base])
  | none =>
    refine .inr ⟨rfl, ?_⟩
    obtain ⟨-, hq | hq | hq | hq⟩ := quiet_cases hl h
    · obtain ⟨t, -, -, -, -, -, rfl⟩ := hq
      rfl
    · obtain ⟨t, -, -, -, rfl⟩ := hq
      rfl
    · obtain ⟨-, -, -, rfl⟩ := hq
      rfl
    · obtain ⟨t, -, -, rfl⟩ := hq
      rfl

/-- Only `acquire` ends the wait for a MySQL connection. -/
theorem waitsFor_db_stays {s s' : State} {l : Label} {es : List Unit} {t : Thread}
    (h : step s l = some (s', es)) (hw : waitsFor s t = some .db) (hother : l ≠ .acquire t) :
    waitsFor s' t = some .db := by
  have hdb := waitsFor_db_iff.mp hw
  refine waitsFor_db_iff.mpr ?_
  rcases step_spec h with ⟨l', r, rfl, -, -, rfl⟩ | ⟨v, rfl, -, hv, rfl⟩ | ⟨v, rfl, -, -, rfl⟩ |
    ⟨v, rfl, hv, rfl⟩
  · exact hdb
  · refine (Function.update_of_ne ?_ ..).trans hdb
    rintro rfl
    rw [hdb] at hv
    exact absurd hv (by simp)
  · refine (Function.update_of_ne ?_ ..).trans hdb
    rintro rfl
    exact hother rfl
  · refine (Function.update_of_ne ?_ ..).trans hdb
    rintro rfl
    rw [hdb] at hv
    exact absurd hv (by simp)

theorem dbCond_lawful (n m : Nat) : dbCond.Lawful (redisCond.Sound (Sound n m)) := by
  refine ⟨fun hi h => (redisCond_lawful n m).wait hi h, ?_, ?_, ?_,
    fun _ _ h => absurd h (by simp [dbCond])⟩
  · intro s l s' es t hi h hr
    change redisCond.waitStep s l = some (s', es) at h
    obtain rfl : l = .step (.acquire t) := by
      simp only [dbCond] at hr
      split at hr
      · rw [Option.some.inj hr]
      · exact absurd hr (by simp)
    obtain ⟨b, hb, -, rfl⟩ := step_cases h
    change step s.base (.acquire t) = some (b, es) at hb
    rcases step_spec hb with ⟨l', r, hl, -⟩ | ⟨v, hl, -⟩ | ⟨v, hl, hv, hpos, rfl⟩ | ⟨v, hl, -⟩
    · exact absurd hl (by simp)
    · exact absurd hl (by simp)
    · obtain rfl := Label.acquire.inj hl
      refine ⟨decide_eq_true (waitsFor_db_iff.mpr hv), .inr ?_⟩
      show 0 < s.base.dbFree ∧ s.base.dbFree - 1 + 1 ≤ s.base.dbFree + 0
      omega
    · exact absurd hl (by simp)
  · intro s l s' es t hi h hr hw
    change redisCond.waitStep s l = some (s', es) at h
    have hw' : waitsFor s.base t = some .db := of_decide_eq_true hw
    refine decide_eq_true ?_
    rcases redisCond_cases h with ⟨l', rfl, hb⟩ | ⟨-, hbase⟩
    · refine waitsFor_db_stays hb hw' ?_
      rintro rfl
      exact hr rfl
    · rw [hbase]
      exact hw'
  · intro s l s' es hi h
    change redisCond.waitStep s l = some (s', es) at h
    show s'.base.dbFree ≤ s.base.dbFree + dbCond.notifies s l
    rcases redisCond_cases h with ⟨l', rfl, hb⟩ | ⟨-, hbase⟩
    · rcases step_spec hb with ⟨l'', r, -, -, -, hs⟩ | ⟨v, -, -, -, hs⟩ | ⟨v, -, -, -, hs⟩ |
        ⟨v, rfl, -, hs⟩
      · rw [hs]
        exact Nat.le_add_right ..
      · rw [hs]
        exact Nat.le_add_right ..
      · rw [hs]
        exact (Nat.sub_le ..).trans (Nat.le_add_right ..)
      · rw [hs]
        exact Nat.le_refl _
    · rw [hbase]
      exact Nat.le_add_right ..

theorem dbCond_resumes (n m : Nat) :
    dbCond.Resumes (redisCond.Sound (Sound n m)) (Condition.Label.isWork Label.isWork) := by
  intro s t hi hw hpred
  have hdb : s.base.db t = .waiting := waitsFor_db_iff.mp (of_decide_eq_true hw)
  have hfree : 0 < s.base.dbFree := by
    rcases hpred with hflood | hfree
    · exact absurd hflood (by simp [dbCond])
    · exact hfree
  have hstep : redisCond.step s.base (.acquire t) =
      some (setDb { s.base with dbFree := s.base.dbFree - 1 } t .holding, []) := by
    show step s.base (.acquire t) = _
    rw [step, if_pos ⟨hdb, hfree⟩]
  have hcalm : ∀ u ∈ redisCond.resumes s.base (.acquire t), s.wait u ≠ .asleep :=
    fun u hu => absurd hu (by simp [redisCond])
  have hwait := step_some hstep hcalm
  exact ⟨.step (.acquire t), _, [], rfl, rfl, hwait⟩

/-! ## 4. Both together -/

/-- Where something could go on and somebody sleeps, somebody is about to be woken, or has been. -/
theorem wake_up_comes {σ ℓ ε T : Type} [DecidableEq T] [Fintype T] {S : Condition.System σ ℓ ε T}
    {Inv : σ → Prop} {s : Condition.State σ T} (hs : S.Sound Inv s) {t : T} (ht : s.wait t = .asleep)
    (hready : 0 < S.ready s.base) : 0 < s.signals ∨ ∃ u, s.wait u = .woken := by
  have hpos := asleep_pos ht
  rcases hs.covered with hcov | ⟨-, hcov⟩
  · exact .inl (by omega)
  · by_contra hnone
    rw [not_or, not_exists] at hnone
    have := woken_eq_zero hnone.2
    omega

/-- **No connection lies idle while a thread sleeps, and the threads always get on.** With the
    condition variables of both pools the threads do nothing they would not do without. Whenever a thread
    sleeps in `getConnection` while its pool has a connection, a `notify_one` is on its way or another
    thread has been woken and is about to look. And with a MySQL connection and 23 to Redis, there is always
    a thread that can take its next step as long as any of them is in the middle of something. -/
theorem connections_never_stall {n m : Nat}
    {ls : List (Condition.Label (Condition.Label Label Thread) Thread)}
    {s : Condition.State (Condition.State State Thread) Thread} {τ : List Unit}
    (h : run dbCond.waitStep (start n m) ls = some (s, τ)) :
    run step (initial n m) ((ls.filterMap Condition.Label.base).filterMap Condition.Label.base) =
      some (s.base.base, τ) ∧
    (∀ t, s.base.wait t = .asleep → 0 < s.base.base.redis.free →
      0 < s.base.signals ∨ ∃ u, s.base.wait u = .woken) ∧
    (∀ t, s.wait t = .asleep → 0 < s.base.base.dbFree → 0 < s.signals ∨ ∃ u, s.wait u = .woken) ∧
    (0 < m → 23 ≤ n → (∃ t, Busy s.base.base t) →
      ∃ l, Condition.Label.isWork (Condition.Label.isWork Label.isWork) l = true ∧
        (dbCond.waitStep s l).isSome = true) := by
  have hsound : dbCond.Sound (redisCond.Sound (Sound n m)) s :=
    (dbCond_lawful n m).run (sound_start (sound_start (sound_initial n m))) h
  refine ⟨run_base (run_base h), fun t ht hfree => wake_up_comes hsound.inv ht hfree,
    fun t ht hfree => wake_up_comes hsound ht hfree, ?_⟩
  rintro hm hn ⟨t, ht⟩
  by_contra hnone
  have hstuck : ∀ l, Condition.Label.isWork (Condition.Label.isWork Label.isWork) l = true →
      dbCond.waitStep s l = none := by
    intro l hl
    by_contra hne
    exact hnone ⟨l, hl, Option.isSome_iff_ne_none.mpr hne⟩
  have hredis := hsound.stuck_base (dbCond_lawful n m) (dbCond_resumes n m) hstuck
  have hpools := hsound.inv.stuck_base (redisCond_lawful n m) (redisCond_resumes n m) hredis
  have hnot : ¬ ConnectionPool.Deadlocked s.base.base.redis := fun hd => by
    have hle := hsound.inv.inv.redis.deadlocked_le hd
    omega
  obtain ⟨l, hl, hsome⟩ := hsound.inv.inv.exists_work hm hnot ht
  exact absurd (hpools l hl) (Option.isSome_iff_ne_none.mp hsome)

/-- A task of the Redis threads sleeps, and the retry thread gives its connection back. -/
def givenBack : List (Condition.Label (Condition.Label Label Thread) Thread) :=
  [.step (.step (.redis .retryScan)), .step (.step (.redis (.acquire .retry))),
    .step (.step (.redis (.redisTask 0 0))), .step (.sleep (.server (.redis 0))),
    .step (.step (.redis (.proceed .retry false)))]

theorem connections_never_stall_givenBack : ∃ s τ,
    run dbCond.waitStep (start 1 1) givenBack = some (s, τ) ∧
    s.base.wait (.server (.redis 0)) = .asleep ∧
    (0 < s.base.signals ∨ ∃ u, s.base.wait u = .woken) := by
  have hruns : (run dbCond.waitStep (start 1 1) givenBack).map (fun p =>
      (decide (p.1.base.wait (.server (.redis 0)) = .asleep), p.1.base.base.redis.free)) =
      some (true, 1) := by decide
  obtain ⟨⟨s, τ⟩, h, hstate⟩ := Option.map_eq_some_iff.mp hruns
  obtain ⟨hasleep, hfree⟩ := Prod.mk.inj hstate
  have ht := of_decide_eq_true hasleep
  have hpos : 0 < s.base.base.redis.free := by
    rw [hfree]
    exact Nat.one_pos
  exact ⟨s, τ, h, ht, (connections_never_stall h).2.1 _ ht hpos⟩

end Pools
end EpollChat
