import EpollChat.Pending.Pools
import EpollChat.Proof.Pending.ConnectionPool

/-!
# The MySQL pool adds no deadlock

A thread that holds a MySQL connection waits for nothing, so such a connection always comes
back and no knot has anything to do with that pool (`Sound.waitsFor_redis`). What is left of a
knot is a deadlock of the Redis pool alone, which `Conserved.deadlocked_le` limits to 22
connections; and a deadlock of the Redis pool is one here too, without MySQL having been
used at all (`run_lift`).
-/

namespace EpollChat
namespace Pools

open Lib Machine Threads

/-! ## 1. What every reachable state is like -/

structure Sound (n m : Nat) (s : State) : Prop where
  redis : ConnectionPool.Conserved n s.redis
  total : s.dbFree + ∑ t, (s.db t).held = m
  /-- A thread that uses MySQL is where it may. -/
  uses : ∀ t, s.db t ≠ .none → mayUseDb s t = true

theorem sound_initial (n m : Nat) : Sound n m (initial n m) := by
  refine ⟨.initial n, ?_, fun t h => absurd rfl h⟩
  show m + ∑ _t : Thread, 0 = m
  simp

/-- A step in the Redis pool moves one thread only. -/
theorem redis_frame {s s' : ConnectionPool.State} {l : ConnectionPool.Label} {es : List Unit}
    (h : ConnectionPool.step s l = some (s', es)) {t : ConnectionPool.Thread} (ht : t ≠ redisThread l) :
    s'.threads t = s.threads t := by
  have hstart : ∀ {u : ConnectionPool.Thread} {pc : ConnectionPool.Pc}, t ≠ u →
      ConnectionPool.startTask s u pc = some (s', es) → s'.threads t = s.threads t := by
    intro u pc hu h
    unfold ConnectionPool.startTask at h
    split at h
    · simp only [Option.some.injEq, Prod.mk.injEq] at h
      obtain ⟨rfl, -⟩ := h
      exact Function.update_of_ne hu _ _
    · exact absurd h (by simp)
  cases l with
  | login i => exact hstart ht h
  | redisTask i more => exact hstart ht h
  | retryScan => exact hstart ht h
  | acquire u =>
    simp only [ConnectionPool.step] at h
    split at h
    · simp only [Option.some.injEq, Prod.mk.injEq] at h
      obtain ⟨rfl, -⟩ := h
      exact Function.update_of_ne ht _ _
    · exact absurd h (by simp)
  | proceed u again =>
    simp only [ConnectionPool.step] at h
    split at h
    · exact absurd h (by simp)
    · simp only [Option.some.injEq, Prod.mk.injEq] at h
      obtain ⟨rfl, -⟩ := h
      exact Function.update_of_ne ht _ _

theorem mayUseDb_congr {s s' : State} {t : Thread}
    (h : ∀ u, t = .server u → s'.redis.threads u = s.redis.threads u) :
    mayUseDb s' t = mayUseDb s t := by
  cases t with
  | flush => rfl
  | server u =>
    have hu := h u rfl
    cases u with
    | db i => rw [mayUseDb, mayUseDb, hu]
    | redis i => rw [mayUseDb, mayUseDb, hu]
    | retry => rfl

/-- A step of the MySQL pool. -/
theorem Sound.setDb {n m : Nat} {s : State} (hi : Sound n m s) {t : Thread} {stage : DbStage}
    {dbFree : Nat} (huse : stage ≠ .none → mayUseDb s t = true)
    (hfree : dbFree + stage.held = s.dbFree + (s.db t).held) :
    Sound n m (setDb { s with dbFree := dbFree } t stage) := by
  refine ⟨hi.redis, ?_, fun u hu => ?_⟩
  · have hsum := Threads.sum_update DbStage.held s.db t stage
    have htotal := hi.total
    show dbFree + ∑ u, (Function.update s.db t stage u).held = m
    omega
  · change Function.update s.db t stage u ≠ .none at hu
    change mayUseDb s u = true
    by_cases hut : u = t
    · subst hut
      rw [Function.update_self] at hu
      exact huse hu
    · rw [Function.update_of_ne hut] at hu
      exact hi.uses u hu

theorem Sound.step {n m : Nat} {s s' : State} {l : Label} {es : List Unit} (hi : Sound n m s)
    (h : step s l = some (s', es)) : Sound n m s' := by
  cases l with
  | redis l =>
    simp only [Pools.step] at h
    split at h
    · rename_i hnone
      obtain ⟨⟨r, es'⟩, hr, hp⟩ := Option.map_eq_some_iff.mp h
      simp only [Prod.mk.injEq] at hp
      obtain ⟨rfl, rfl⟩ := hp
      refine ⟨hi.redis.step hr, hi.total, fun t ht => ?_⟩
      rw [← hi.uses t ht]
      refine mayUseDb_congr fun u hu => redis_frame hr ?_
      rintro rfl
      subst hu
      exact ht hnone
    · exact absurd h (by simp)
  | getConnection t =>
    simp only [Pools.step] at h
    split at h
    · rename_i hcond
      simp only [Option.some.injEq, Prod.mk.injEq] at h
      obtain ⟨rfl, rfl⟩ := h
      have hfree : s.dbFree + DbStage.waiting.held = s.dbFree + (s.db t).held := by rw [hcond.1]; rfl
      exact hi.setDb (fun _ => hcond.2) hfree
    · exact absurd h (by simp)
  | acquire t =>
    simp only [Pools.step] at h
    split at h
    · rename_i hcond
      simp only [Option.some.injEq, Prod.mk.injEq] at h
      obtain ⟨rfl, rfl⟩ := h
      refine hi.setDb (fun _ => hi.uses t (by rw [hcond.1]; simp)) ?_
      have hpos := hcond.2
      rw [hcond.1]
      simp only [DbStage.held]
      omega
    · exact absurd h (by simp)
  | release t =>
    simp only [Pools.step] at h
    split at h
    · rename_i hholding
      simp only [Option.some.injEq, Prod.mk.injEq] at h
      obtain ⟨rfl, rfl⟩ := h
      refine hi.setDb (fun hne => absurd rfl hne) ?_
      rw [hholding]
      rfl
    · exact absurd h (by simp)

theorem sound_run {n m : Nat} {ls : List Label} {s : State} {τ : List Unit}
    (h : run step (initial n m) ls = some (s, τ)) : Sound n m s :=
  run_inv_state (Sound n m) (fun hi hs => hi.step hs) (sound_initial n m) h

/-- Of nothing nobody holds anything. -/
theorem Sound.redisHeld_eq_zero {m : Nat} {s : State} (hi : Sound 0 m s) (t : Thread) :
    redisHeld s t = 0 := by
  cases t with
  | flush => rfl
  | server t =>
    have htotal := hi.redis.total
    have hle := Threads.le_sum ConnectionPool.Pc.held s.redis.threads t
    change (s.redis.threads t).held = 0
    omega

theorem Sound.dbHeld_eq_zero {n : Nat} {s : State} (hi : Sound n 0 s) (t : Thread) :
    (s.db t).held = 0 := by
  have htotal := hi.total
  have hle := Threads.le_sum DbStage.held s.db t
  omega

/-! ## 2. Knots -/

/-- A thread that may use MySQL does not wait for Redis. -/
theorem not_waiting_of_mayUseDb {s : State} {t : ConnectionPool.Thread}
    (h : mayUseDb s (.server t) = true) : (s.redis.threads t).waiting = false := by
  cases t with
  | db i =>
    simp only [mayUseDb, decide_eq_true_eq] at h
    rcases h with h | h
    · rw [h]
      rfl
    · rw [h]
      rfl
  | redis i =>
    simp only [mayUseDb] at h
    split at h
    · rename_i heq
      rw [heq]
      rfl
    · exact absurd h (by simp)
  | retry => exact absurd h (by simp [mayUseDb])

/-- **Nobody in a knot waits for MySQL.** -/
theorem Sound.waitsFor_redis {n m : Nat} {s : State} (hi : Sound n m s) (hm : 0 < m)
    {D : Thread → Prop} (hk : (waits s).Knot D) {t : Thread} (ht : D t) :
    (waits s).waitsFor t = some .redis := by
  have hne : (waits s).waitsFor t ≠ some .db := by
    refine hk.waitsFor_ne (fun hfree => ?_) (fun u hu => ?_) ht
    · -- The pool is empty, so somebody has what was in it.
      by_contra hnone
      have hzero : ∀ u, (s.db u).held = 0 := fun u =>
        Nat.eq_zero_of_not_pos fun hu => hnone ⟨u, hu⟩
      have htotal := hi.total
      rw [Finset.sum_eq_zero fun u _ => hzero u] at htotal
      have : s.dbFree = 0 := hfree
      omega
    · have hholding : s.db u = .holding := by
        change 0 < (s.db u).held at hu
        cases hs : s.db u with
        | holding => rfl
        | none => rw [hs] at hu; exact absurd hu (by simp [DbStage.held])
        | waiting => rw [hs] at hu; exact absurd hu (by simp [DbStage.held])
      show waitsFor s u = none
      unfold waitsFor
      rw [hholding]
  obtain ⟨p, hp, -⟩ := hk.2 t ht
  cases p with
  | redis => exact hp
  | db => exact absurd hp hne

theorem waiting_of_waitsFor_redis {s : State} {t : ConnectionPool.Thread}
    (h : waitsFor s (.server t) = some .redis) : (s.redis.threads t).waiting = true := by
  unfold waitsFor at h
  split at h
  · exact absurd h (by simp)
  · exact absurd h (by simp)
  · rename_i heq
    cases heq
    by_contra hw
    rw [if_neg hw] at h
    exact absurd h (by simp)
  · exact absurd h (by simp)

/-- A knot is a deadlock of the Redis pool. -/
theorem Sound.deadlocked {n m : Nat} {s : State} (hi : Sound n m s) (hm : 0 < m) {D : Thread → Prop}
    (hk : (waits s).Knot D) : ConnectionPool.Deadlocked s.redis := by
  obtain ⟨t, ht⟩ := hk.1
  obtain ⟨p, hp, hfree, hall⟩ := hk.2 t ht
  obtain rfl : p = .redis := Option.some.inj (hp.symm.trans (hi.waitsFor_redis hm hk ht))
  refine ⟨hfree, fun u hu => ?_⟩
  exact waiting_of_waitsFor_redis (hi.waitsFor_redis hm hk (hall (.server u) hu))

/-! ## 3. Runs of the Redis pool alone -/

/-- The threads are in the Redis pool as `s` says, and nobody uses MySQL. -/
def lift (m : Nat) (s : ConnectionPool.State) : State := { redis := s, dbFree := m }

theorem step_lift (m : Nat) (s : ConnectionPool.State) (l : ConnectionPool.Label) :
    step (lift m s) (.redis l) = (ConnectionPool.step s l).map (Prod.map (lift m) id) := by
  have hnone : (lift m s).db (.server (redisThread l)) = .none := rfl
  rw [step, if_pos hnone]
  rfl

theorem run_lift {n m : Nat} {ls : List ConnectionPool.Label} {s : ConnectionPool.State}
    {τ : List Unit} (h : run ConnectionPool.step (ConnectionPool.initial n) ls = some (s, τ)) :
    run step (initial n m) (ls.map .redis) = some (lift m s, τ) := by
  have hmap : run step (lift m (ConnectionPool.initial n)) (ls.map .redis) =
      (run ConnectionPool.step (ConnectionPool.initial n) ls).map (Prod.map (lift m) id) :=
    run_map (step_lift m)
  rw [h] at hmap
  exact hmap

theorem waits_lift {m : Nat} {s : ConnectionPool.State} {t : ConnectionPool.Thread}
    (h : (s.threads t).waiting = true) : (waits (lift m s)).waitsFor (.server t) = some .redis :=
  if_pos h

/-- A deadlock of the Redis pool is a knot of those who hold a connection. -/
theorem knot_of_deadlocked {n m : Nat} {s : ConnectionPool.State} (hn : 0 < n)
    (hc : ConnectionPool.Conserved n s) (hd : ConnectionPool.Deadlocked s) :
    (waits (lift m s)).Knot fun t => 0 < redisHeld (lift m s) t := by
  refine ⟨?_, fun t ht => ?_⟩
  · by_contra hnone
    have hzero : ∀ t, (s.threads t).held = 0 := fun t =>
      Nat.eq_zero_of_not_pos fun ht => hnone ⟨.server t, ht⟩
    have htotal := hc.total
    rw [Finset.sum_eq_zero fun t _ => hzero t, hd.1] at htotal
    omega
  · cases t with
    | flush => exact absurd ht (by simp [redisHeld])
    | server t => exact ⟨.redis, waits_lift (hd.2 t ht), hd.1, fun _ hu => hu⟩

/-- **The two pools together.** No run of the server leads to threads that wait for each other's
    connections, exactly if there is a MySQL connection at all and there are at least 23 to Redis. -/
theorem pools_deadlock_free_iff {n m : Nat} :
    (∀ ls s τ, run step (initial n m) ls = some (s, τ) → ∀ D, ¬ (waits s).Knot D) ↔ 0 < m ∧ 23 ≤ n := by
  constructor
  · intro h
    refine ⟨Nat.pos_of_ne_zero fun hm => ?_, ?_⟩
    · -- Without MySQL connections the flush thread waits for ever.
      subst hm
      have hr : run step (initial n 0) [.getConnection .flush] = some (_, []) := rfl
      refine h _ _ [] hr (· = .flush) ⟨⟨_, rfl⟩, ?_⟩
      rintro t rfl
      refine ⟨.db, rfl, rfl, fun u hu => ?_⟩
      exact absurd hu (Nat.not_lt.mpr (Nat.le_of_eq ((sound_run hr).dbHeld_eq_zero u)))
    · by_contra hn
      obtain ⟨ls, s, hr, hd⟩ := ConnectionPool.jammed (show n ≤ 22 by omega)
      rcases Nat.eq_zero_or_pos n with rfl | hpos
      · -- Without any connection to Redis the retry thread does.
        have hr : run step (initial 0 m) [.redis .retryScan] = some (_, []) := rfl
        refine h _ _ [] hr (· = .server .retry) ⟨⟨_, rfl⟩, ?_⟩
        rintro t rfl
        refine ⟨.redis, rfl, rfl, fun u hu => ?_⟩
        exact absurd hu (Nat.not_lt.mpr (Nat.le_of_eq ((sound_run hr).redisHeld_eq_zero u)))
      · have hc : ConnectionPool.Conserved n s := run_inv_state (ConnectionPool.Conserved n)
          (fun hi hs => hi.step hs) (.initial n) hr
        exact h _ _ _ (run_lift hr) _ (knot_of_deadlocked hpos hc hd)
  · rintro ⟨hm, hn⟩ ls s τ hr D hk
    have hi := sound_run hr
    have hle := hi.redis.deadlocked_le (hi.deadlocked hm hk)
    omega

end Pools
end EpollChat
