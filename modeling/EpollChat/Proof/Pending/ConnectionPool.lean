import EpollChat.Lib.Threads
import EpollChat.Pending.ConnectionPool

/-!
# When the pool can deadlock

A thread that waits for a connection holds at most one, or two if it is the retry thread,
and none if it is one of the Redis threads. So in a deadlock at most 20 + 2 connections
are held, and a pool of 23 has none (`no_deadlock`). Every smaller pool has one: as many
logins as there are connections, and the retry thread for the last two, each get as far as
they can (`jammed`). The default is a pool of 16.
-/

namespace EpollChat
namespace ConnectionPool

open Lib Machine

/-- All connections are held, and every thread that holds one waits for another. -/
def Deadlocked (s : State) : Prop :=
  s.free = 0 ∧ ∀ t, 0 < (s.threads t).held → (s.threads t).waiting = true

instance : DecidablePred Deadlocked := fun s =>
  inferInstanceAs (Decidable (s.free = 0 ∧ ∀ t, 0 < (s.threads t).held → (s.threads t).waiting = true))

/-! ## 1. Connections are neither lost nor made -/

/-- Which places a thread of each kind can be in. -/
def Belongs : Thread → Pc → Prop
  | _, .idle => True
  | .db _, .friendsWait => True
  | .db _, .friends => True
  | .db _, .dispatch false _ => True
  | .redis _, .callWait _ => True
  | .redis _, .call _ => True
  | .retry, .scanWait => True
  | .retry, .scan => True
  | .retry, .dispatch true _ => True
  | _, _ => False

structure Conserved (n : Nat) (s : State) : Prop where
  total : s.free + ∑ t, (s.threads t).held = n
  belongs : ∀ t, Belongs t (s.threads t)

theorem Conserved.move {n : Nat} {s : State} (hi : Conserved n s) {t : Thread} {pc : Pc} {free : Nat}
    (hb : Belongs t pc) (hfree : free + pc.held = s.free + (s.threads t).held) :
    Conserved n (setThread { s with free := free } t pc) := by
  refine ⟨?_, ?_⟩
  · have hsum := Threads.sum_update Pc.held s.threads t pc
    have htotal := hi.total
    show free + ∑ u, (Function.update s.threads t pc u).held = n
    omega
  · intro u
    show Belongs u (Function.update s.threads t pc u)
    by_cases hu : u = t
    · subst hu
      rw [Function.update_self]
      exact hb
    · rw [Function.update_of_ne hu]
      exact hi.belongs u

theorem held_acquired {pc : Pc} (h : pc.waiting = true) : (acquired pc).held = pc.held + 1 := by
  cases pc with
  | friendsWait => rfl
  | callWait more => rfl
  | scanWait => rfl
  | dispatch retry stage =>
    cases stage with
    | fetchWait => rfl
    | attemptWait => rfl
    | connWait => rfl
    | setWait => rfl
    | _ => exact absurd h (by simp [Pc.waiting, Stage.waiting])
  | _ => exact absurd h (by simp [Pc.waiting])

theorem belongs_acquired {t : Thread} {pc : Pc} (h : Belongs t pc) : Belongs t (acquired pc) := by
  cases pc with
  | dispatch retry stage => cases t <;> cases retry <;> cases stage <;> exact h
  | _ => cases t <;> exact h

/-- A thread that goes on keeps its kind, and what it no longer holds has gone back. -/
theorem proceed_spec {t : Thread} {pc pc' : Pc} {again : Bool} {released : Nat}
    (hb : Belongs t pc) (h : proceed pc again = some (pc', released)) :
    Belongs t pc' ∧ pc'.held + released = pc.held := by
  cases pc with
  | idle => exact absurd h (by simp [proceed])
  | friendsWait => exact absurd h (by simp [proceed])
  | callWait more => exact absurd h (by simp [proceed])
  | scanWait => exact absurd h (by simp [proceed])
  | friends =>
    simp only [proceed, Option.some.injEq, Prod.mk.injEq] at h
    obtain ⟨rfl, rfl⟩ := h
    cases t with
    | db i => cases again <;> exact ⟨trivial, rfl⟩
    | redis i => exact absurd hb (by simp [Belongs])
    | retry => exact absurd hb (by simp [Belongs])
  | call more =>
    cases t with
    | redis i =>
      cases more with
      | zero =>
        simp only [proceed, Option.some.injEq, Prod.mk.injEq] at h
        obtain ⟨rfl, rfl⟩ := h
        exact ⟨trivial, rfl⟩
      | succ more =>
        simp only [proceed, Option.some.injEq, Prod.mk.injEq] at h
        obtain ⟨rfl, rfl⟩ := h
        exact ⟨trivial, rfl⟩
    | db i => exact absurd hb (by simp [Belongs])
    | retry => exact absurd hb (by simp [Belongs])
  | scan =>
    cases t with
    | retry =>
      cases again with
      | true =>
        simp only [proceed, Option.some.injEq, Prod.mk.injEq] at h
        obtain ⟨rfl, rfl⟩ := h
        exact ⟨trivial, rfl⟩
      | false =>
        simp only [proceed, Option.some.injEq, Prod.mk.injEq] at h
        obtain ⟨rfl, rfl⟩ := h
        exact ⟨trivial, rfl⟩
    | db i => exact absurd hb (by simp [Belongs])
    | redis i => exact absurd hb (by simp [Belongs])
  | dispatch retry stage =>
    -- The stage changes; which of the two callers it is does not, up to the return.
    have hkind : ∀ stage', Belongs t (.dispatch retry stage') := by
      intro stage'
      cases t <;> cases retry <;> exact hb
    cases stage with
    | fetchWait => exact absurd h (by simp [proceed])
    | attemptWait => exact absurd h (by simp [proceed])
    | connWait => exact absurd h (by simp [proceed])
    | setWait => exact absurd h (by simp [proceed])
    | fetching =>
      simp only [proceed, Option.some.injEq, Prod.mk.injEq] at h
      obtain ⟨rfl, rfl⟩ := h
      exact ⟨hkind _, rfl⟩
    | loop =>
      cases again with
      | true =>
        simp only [proceed, Option.some.injEq, Prod.mk.injEq] at h
        obtain ⟨rfl, rfl⟩ := h
        exact ⟨hkind _, rfl⟩
      | false =>
        simp only [proceed, Option.some.injEq, Prod.mk.injEq] at h
        obtain ⟨rfl, rfl⟩ := h
        cases t with
        | redis i => cases retry <;> exact absurd hb (by simp [Belongs])
        | db i =>
          cases retry with
          | true => exact absurd hb (by simp [Belongs])
          | false => exact ⟨trivial, rfl⟩
        | retry =>
          cases retry with
          | true => exact ⟨trivial, rfl⟩
          | false => exact absurd hb (by simp [Belongs])
    | readingAttempt =>
      simp only [proceed, Option.some.injEq, Prod.mk.injEq] at h
      obtain ⟨rfl, rfl⟩ := h
      cases again <;> exact ⟨hkind _, rfl⟩
    | setting =>
      simp only [proceed, Option.some.injEq, Prod.mk.injEq] at h
      obtain ⟨rfl, rfl⟩ := h
      exact ⟨hkind _, rfl⟩
    | rescheduling =>
      simp only [proceed, Option.some.injEq, Prod.mk.injEq] at h
      obtain ⟨rfl, rfl⟩ := h
      exact ⟨hkind _, rfl⟩

theorem Conserved.start {n : Nat} {s s' : State} {t : Thread} {pc : Pc} {es : List Unit}
    (hi : Conserved n s) (hb : Belongs t pc) (h0 : pc.held = 0)
    (h : startTask s t pc = some (s', es)) : Conserved n s' := by
  unfold startTask at h
  split at h
  · next hidle =>
    simp only [Option.some.injEq, Prod.mk.injEq] at h
    obtain ⟨rfl, rfl⟩ := h
    exact hi.move hb (by rw [hidle, h0]; rfl)
  · exact absurd h (by simp)

theorem Conserved.step {n : Nat} {s s' : State} {l : Label} {es : List Unit} (hi : Conserved n s)
    (h : step s l = some (s', es)) : Conserved n s' := by
  cases l with
  | login i =>
    refine hi.start ?_ ?_ h
    · trivial
    · rfl
  | redisTask i more =>
    refine hi.start ?_ ?_ h
    · trivial
    · rfl
  | retryScan =>
    refine hi.start ?_ ?_ h
    · trivial
    · rfl
  | acquire t =>
    simp only [ConnectionPool.step] at h
    split at h
    · next hcond =>
      simp only [Option.some.injEq, Prod.mk.injEq] at h
      obtain ⟨rfl, rfl⟩ := h
      refine hi.move (belongs_acquired (hi.belongs t)) ?_
      rw [held_acquired hcond.1]
      omega
    · exact absurd h (by simp)
  | proceed t again =>
    simp only [ConnectionPool.step] at h
    cases hp : proceed (s.threads t) again with
    | none => rw [hp] at h; exact absurd h (by simp)
    | some q =>
      obtain ⟨pc, released⟩ := q
      rw [hp] at h
      simp only [Option.some.injEq, Prod.mk.injEq] at h
      obtain ⟨rfl, rfl⟩ := h
      obtain ⟨hb, hheld⟩ := proceed_spec (hi.belongs t) hp
      exact hi.move hb (by omega)

theorem Conserved.initial (n : Nat) : Conserved n (initial n) := by
  refine ⟨?_, fun t => by cases t <;> trivial⟩
  show n + ∑ _t : Thread, 0 = n
  simp

/-! ## 2. A large pool -/

/-- The most a waiting thread holds. -/
def waitingHolds : Thread → Nat
  | .db _ => 1
  | .redis _ => 0
  | .retry => 2

theorem sum_waitingHolds : ∑ t, waitingHolds t = 22 := by decide

/-- `setPendingAttempt` is the only wait of a dispatch with a connection in hand. -/
theorem stage_held_of_waiting {stage : Stage} (hw : stage.waiting = true) : stage.held ≤ 1 := by
  cases stage with
  | setting => exact absurd hw (by simp [Stage.waiting])
  | _ => decide

theorem held_of_waiting {t : Thread} {pc : Pc} (hb : Belongs t pc) (hw : pc.waiting = true) :
    pc.held ≤ waitingHolds t := by
  cases pc with
  | dispatch retry stage =>
    cases t with
    | redis i => cases retry <;> exact absurd hb (by simp [Belongs])
    | db i =>
      cases retry with
      | true => exact absurd hb (by simp [Belongs])
      | false => exact (Nat.zero_add _).trans_le (stage_held_of_waiting hw)
    | retry =>
      cases retry with
      | false => exact absurd hb (by simp [Belongs])
      | true => exact Nat.add_le_add_left (stage_held_of_waiting hw) 1
  | friendsWait => exact Nat.zero_le _
  | callWait more => exact Nat.zero_le _
  | scanWait => exact Nat.zero_le _
  | _ => exact absurd hw (by simp [Pc.waiting])

/-- In a deadlock at most 22 connections are held. -/
theorem Conserved.deadlocked_le {n : Nat} {s : State} (hi : Conserved n s) (hd : Deadlocked s) :
    n ≤ 22 := by
  have hle : ∑ t, (s.threads t).held ≤ ∑ t, waitingHolds t := by
    refine Finset.sum_le_sum fun t _ => ?_
    rcases Nat.eq_zero_or_pos (s.threads t).held with h0 | hpos
    · rw [h0]
      exact Nat.zero_le _
    · exact held_of_waiting (hi.belongs t) (hd.2 t hpos)
  have htotal := hi.total
  rw [sum_waitingHolds] at hle
  have hfree := hd.1
  omega

/-! ## 3. A small pool -/

/-- What a thread does until it waits in `setPendingAttempt`. -/
def toSetWait (t : Thread) : List Label :=
  [.acquire t, .proceed t true, .proceed t true, .acquire t, .proceed t true, .acquire t]

/-- A login that gets as far as `setPendingAttempt`. -/
def jamLogin (i : Fin 20) : List Label :=
  [.login i, .acquire (.db i), .proceed (.db i) true] ++ toSetWait (.db i)

/-- One free connection is enough for a thread to get from `fetchPendingMessages` to
    `setPendingAttempt`, and then it is not free any more. -/
theorem run_toSetWait {s : State} {t : Thread} {retry : Bool} (hfree : 0 < s.free)
    (ht : s.threads t = .dispatch retry .fetchWait) :
    run step s (toSetWait t)
      = some (setThread { s with free := s.free - 1 } t (.dispatch retry .setWait), []) := by
  obtain ⟨free, threads⟩ := s
  dsimp only at ht hfree
  have hback : free - 1 + 1 = free := Nat.sub_add_cancel hfree
  simp [toSetWait, run, step, setThread, ht, hfree, Pc.waiting, Stage.waiting, acquired, proceed, hback]

theorem run_jamLogin {s : State} {i : Fin 20} (hfree : 0 < s.free) (hi : s.threads (.db i) = .idle) :
    run step s (jamLogin i)
      = some (setThread { s with free := s.free - 1 } (.db i) (.dispatch false .setWait), []) := by
  have hstart : run step s [.login i, .acquire (.db i), .proceed (.db i) true]
      = some (setThread s (.db i) (.dispatch false .fetchWait), []) := by
    obtain ⟨free, threads⟩ := s
    dsimp only at hi hfree
    have hback : free - 1 + 1 = free := Nat.sub_add_cancel hfree
    simp [run, step, startTask, setThread, hi, hfree, Pc.waiting, acquired, proceed, hback]
  have hrest := run_toSetWait (t := .db i) (s := setThread s (.db i) (.dispatch false .fetchWait)) hfree
    (Function.update_self ..)
  have h := run_trans hrest hstart
  rw [show setThread { setThread s (.db i) (.dispatch false .fetchWait) with
      free := (setThread s (.db i) (.dispatch false .fetchWait)).free - 1 } (.db i)
        (.dispatch false .setWait)
      = setThread { s with free := s.free - 1 } (.db i) (.dispatch false .setWait) by
    simp [setThread]] at h
  exact h

/-- Each of these logins takes one connection with it. -/
theorem run_jamLogins : ∀ {is : List (Fin 20)} {s : State}, is.Nodup →
    (∀ i ∈ is, s.threads (.db i) = .idle) → is.length ≤ s.free →
    ∃ s', run step s (is.flatMap jamLogin) = some (s', []) ∧ s'.free = s.free - is.length ∧
      ∀ t, s'.threads t = s.threads t ∨ s'.threads t = .dispatch false .setWait := by
  intro is
  induction is with
  | nil => exact fun {s} _ _ _ => ⟨s, rfl, rfl, fun _ => Or.inl rfl⟩
  | cons i is ih =>
    intro s hnodup hidle hlen
    rw [List.length_cons] at hlen
    obtain ⟨hi, hnodup'⟩ := List.nodup_cons.mp hnodup
    have hfirst := run_jamLogin (s := s) (by omega) (hidle i List.mem_cons_self)
    obtain ⟨s', hrun, hfree, hthreads⟩ := ih
      (s := setThread { s with free := s.free - 1 } (.db i) (.dispatch false .setWait)) hnodup'
      (fun j hj => by
        have hne : Thread.db j ≠ Thread.db i := fun h => hi (Thread.db.inj h ▸ hj)
        exact (Function.update_of_ne hne _ _).trans (hidle j (List.mem_cons_of_mem _ hj)))
      (show is.length ≤ s.free - 1 by omega)
    refine ⟨s', ?_, ?_, ?_⟩
    · rw [List.flatMap_cons]
      exact run_trans hrun hfirst
    · rw [hfree, List.length_cons]
      show s.free - 1 - is.length = _
      omega
    · intro t
      rcases hthreads t with h | h
      · by_cases ht : t = .db i
        · rw [h, ht]
          exact Or.inr (Function.update_self ..)
        · exact Or.inl (h.trans (Function.update_of_ne ht _ _))
      · exact Or.inr h

/-- From a state in which at most 20 connections are free, no DB thread is busy and every
    holder waits, logins take the rest. -/
theorem jam {n : Nat} {ls : List Label} {s : State} (hr : run step (initial n) ls = some (s, []))
    (hfree : s.free ≤ 20) (hidle : ∀ i, s.threads (.db i) = .idle)
    (hwait : ∀ t, 0 < (s.threads t).held → (s.threads t).waiting = true) :
    ∃ ls' s', run step (initial n) ls' = some (s', []) ∧ Deadlocked s' := by
  have hlen : ((List.finRange 20).take s.free).length = s.free := by
    rw [List.length_take, List.length_finRange]
    omega
  obtain ⟨s', hrun, hfree', hthreads⟩ := run_jamLogins (s := s)
    ((List.nodup_finRange 20).sublist (List.take_sublist s.free _)) (fun i _ => hidle i)
    (Nat.le_of_eq hlen)
  refine ⟨_, s', run_trans hrun hr, ?_, ?_⟩
  · rw [hfree', hlen]
    omega
  · intro t ht
    rcases hthreads t with h | h
    · rw [h] at ht ⊢
      exact hwait t ht
    · rw [h]
      rfl

/-- The retry thread, up to the `fetchPendingMessages` of its first user: it holds one
    connection and waits. -/
def jamRetry : List Label := [.retryScan, .acquire .retry, .proceed .retry true]

/-- A pool of up to 22 connections jams. -/
theorem jammed {n : Nat} (hn : n ≤ 22) :
    ∃ ls s, run step (initial n) ls = some (s, []) ∧ Deadlocked s := by
  rcases Nat.lt_or_ge 20 n with hlt | hle
  · rcases Nat.lt_or_ge 21 n with hlt' | hle'
    · -- 22: the retry thread holds its own connection and that of a round.
      obtain rfl : n = 22 := by omega
      have hrun : run step (initial 22) (jamRetry ++ toSetWait .retry) = some (_, []) := rfl
      exact jam hrun (by decide) (by decide) (by decide)
    · obtain rfl : n = 21 := by omega
      have hrun : run step (initial 21) jamRetry = some (_, []) := rfl
      exact jam hrun (by decide) (by decide) (by decide)
  · exact jam (show run step (initial n) [] = some (initial n, []) from rfl) hle (fun _ => rfl)
      (fun _ h => absurd h (by simp [initial, Pc.held]))

/-- **The Redis pool cannot deadlock exactly when it has at least 23 connections.** -/
theorem pool_deadlock_free_iff {n : Nat} :
    (∀ ls s τ, run step (initial n) ls = some (s, τ) → ¬ Deadlocked s) ↔ 23 ≤ n := by
  constructor
  · intro h
    by_contra hn
    obtain ⟨ls, s, hr, hd⟩ := jammed (show n ≤ 22 by omega)
    exact h ls s [] hr hd
  · intro hn ls s τ hr hd
    have hi : Conserved n s := run_inv_state (Conserved n) (fun hi hs => hi.step hs)
      (Conserved.initial n) hr
    have hle := hi.deadlocked_le hd
    omega

/-- **Deadlock in the default pool.** Sixteen logins dispatch at the same time. -/
theorem default_pool_deadlocks : ∃ s τ,
    run step (initial 16) (((List.finRange 20).take 16).flatMap jamLogin) = some (s, τ) ∧
      Deadlocked s := by
  obtain ⟨⟨s, τ⟩, hr, h⟩ := Option.map_eq_some_iff.mp (show (run step (initial 16)
    (((List.finRange 20).take 16).flatMap jamLogin)).map (fun p => decide (Deadlocked p.1))
      = some true by set_option maxRecDepth 4000 in decide)
  exact ⟨s, τ, hr, of_decide_eq_true h⟩

end ConnectionPool
end EpollChat
