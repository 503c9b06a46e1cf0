import EpollChat.Lib.Machine
import EpollChat.Lib.Threads

/-!
# Condition variables

A machine whose critical sections are single steps leaves out how a thread gets into one.
`cond.wait(lock, pred)` puts the thread to sleep as long as the predicate is false, and then it is up
to others to wake it: a `notify_one` that comes when nobody sleeps is lost, one may come long after
the lock was released, a thread may wake up for no reason, and another one may be faster
than the one that was woken.

`System` is a machine with what its condition variable needs to know, and `waitStep` the machine
with all of this made visible. Two facts hold of every such machine. It does nothing the
first one does not do (`run_base`). And it is stuck only where the first one is stuck: no wake-up is
lost (`Sound.stuck_base`). The reason is `Covered`: whenever threads sleep, there are as many
wake-ups on their way, or woken threads not yet back, as there are threads that could go on.
-/

namespace Lib
namespace Condition

open Machine

/-! ## 1. Sleeping and waking -/

inductive Wait where
  | awake
  /-- In the queue of the condition variable. -/
  | asleep
  /-- Out of the queue, and not yet back at the predicate. -/
  | woken
deriving DecidableEq, Repr

structure System (σ ℓ ε T : Type*) where
  step : σ → ℓ → Option (σ × List ε)
  /-- The thread whose `wait` the step is the end of. -/
  resumes : σ → ℓ → Option T
  /-- The thread has come to its `wait`. -/
  atWait : σ → T → Bool
  /-- How many threads find the predicate true, one after the other. -/
  ready : σ → Nat
  /-- All of them do. -/
  flooded : σ → Bool
  /-- The calls of `notify_one` that come with a step; a `notify_all` is one for each thread. -/
  notifies : σ → ℓ → Nat

structure State (σ T : Type*) where
  base : σ
  wait : T → Wait := fun _ => .awake
  /-- Calls of `notify_one` that have not been made yet. -/
  signals : Nat := 0

inductive Label (ℓ T : Type*) where
  | step (l : ℓ)
  /-- The predicate is false. -/
  | sleep (t : T)
  /-- A `notify_one`, and which thread it wakes. -/
  | notify (t : Option T)
  | spurious (t : T)
deriving DecidableEq, Repr

section

variable {σ ℓ ε T : Type*} [DecidableEq T]

def setWait (s : State σ T) (t : T) (w : Wait) : State σ T :=
  { s with wait := Function.update s.wait t w }

/-- A thread whose `wait` is over is awake. -/
def resumed (wait : T → Wait) : Option T → T → Wait
  | none => wait
  | some t => Function.update wait t .awake

variable [Fintype T]

def System.waitStep (S : System σ ℓ ε T) (s : State σ T) : Label ℓ T → Option (State σ T × List ε)
  | .step l =>
      if ∀ t ∈ S.resumes s.base l, s.wait t ≠ .asleep then
        (S.step s.base l).map fun p =>
          ({ base := p.1
             wait := resumed s.wait (S.resumes s.base l)
             signals := s.signals + S.notifies s.base l }, p.2)
      else none
  | .sleep t =>
      if S.atWait s.base t = true ∧ s.wait t ≠ .asleep ∧ S.ready s.base = 0 ∧ S.flooded s.base = false then
        some (setWait s t .asleep, [])
      else none
  | .notify (some t) =>
      if 0 < s.signals ∧ s.wait t = .asleep then
        some (setWait { s with signals := s.signals - 1 } t .woken, [])
      else none
  | .notify none =>
      if 0 < s.signals ∧ ∀ t, s.wait t ≠ .asleep then some ({ s with signals := s.signals - 1 }, [])
      else none
  | .spurious t => if s.wait t = .asleep then some (setWait s t .woken, []) else none

/-- What the first machine sees of a step. -/
def Label.base : Label ℓ T → Option ℓ
  | .step l => some l
  | _ => none

/-- The steps of the threads that are in the middle of something, as far as `work` says so of
    the first machine. Nobody can count on a thread to wake up for no reason. -/
def Label.isWork (work : ℓ → Bool) : Label ℓ T → Bool
  | .step l => work l
  | .sleep _ => true
  | .notify _ => true
  | .spurious _ => false

theorem step_cases {S : System σ ℓ ε T} {s s' : State σ T} {l : ℓ} {es : List ε}
    (h : S.waitStep s (.step l) = some (s', es)) :
    ∃ b, S.step s.base l = some (b, es) ∧ (∀ t, S.resumes s.base l = some t → s.wait t ≠ .asleep) ∧
      s' = { base := b
             wait := resumed s.wait (S.resumes s.base l)
             signals := s.signals + S.notifies s.base l } := by
  simp only [System.waitStep] at h
  split at h
  · rename_i hawake
    obtain ⟨⟨b, es'⟩, hb, heq⟩ := Option.map_eq_some_iff.mp h
    simp only [Prod.mk.injEq] at heq
    obtain ⟨rfl, rfl⟩ := heq
    exact ⟨b, hb, fun t ht => hawake t ht, rfl⟩
  · exact absurd h (by simp)

theorem step_some {S : System σ ℓ ε T} {s : State σ T} {l : ℓ} {b : σ} {es : List ε}
    (hb : S.step s.base l = some (b, es)) (hawake : ∀ t ∈ S.resumes s.base l, s.wait t ≠ .asleep) :
    S.waitStep s (.step l) = some ({ base := b
                                     wait := resumed s.wait (S.resumes s.base l)
                                     signals := s.signals + S.notifies s.base l }, es) := by
  rw [System.waitStep, if_pos hawake, hb]
  rfl

/-- A step of the condition variable: one thread's sleep changes, and perhaps a signal is used up. -/
theorem quiet_cases {S : System σ ℓ ε T} {s s' : State σ T} {l : Label ℓ T} {es : List ε}
    (hl : l.base = none) (h : S.waitStep s l = some (s', es)) :
    es = [] ∧ ((∃ t, l = .sleep t ∧ S.atWait s.base t = true ∧ s.wait t ≠ .asleep ∧
        S.ready s.base = 0 ∧ S.flooded s.base = false ∧ s' = setWait s t .asleep) ∨
      (∃ t, l = .notify (some t) ∧ 0 < s.signals ∧ s.wait t = .asleep ∧
        s' = setWait { s with signals := s.signals - 1 } t .woken) ∨
      (l = .notify none ∧ 0 < s.signals ∧ (∀ t, s.wait t ≠ .asleep) ∧
        s' = { s with signals := s.signals - 1 }) ∨
      ∃ t, l = .spurious t ∧ s.wait t = .asleep ∧ s' = setWait s t .woken) := by
  cases l with
  | step l => exact absurd hl (by simp [Label.base])
  | sleep t =>
    simp only [System.waitStep] at h
    split at h
    · rename_i hc
      simp only [Option.some.injEq, Prod.mk.injEq] at h
      obtain ⟨rfl, rfl⟩ := h
      exact ⟨rfl, .inl ⟨t, rfl, hc.1, hc.2.1, hc.2.2.1, hc.2.2.2, rfl⟩⟩
    · exact absurd h (by simp)
  | notify o =>
    cases o with
    | some t =>
      simp only [System.waitStep] at h
      split at h
      · rename_i hc
        simp only [Option.some.injEq, Prod.mk.injEq] at h
        obtain ⟨rfl, rfl⟩ := h
        exact ⟨rfl, .inr (.inl ⟨t, rfl, hc.1, hc.2, rfl⟩)⟩
      · exact absurd h (by simp)
    | none =>
      simp only [System.waitStep] at h
      split at h
      · rename_i hc
        simp only [Option.some.injEq, Prod.mk.injEq] at h
        obtain ⟨rfl, rfl⟩ := h
        exact ⟨rfl, .inr (.inr (.inl ⟨rfl, hc.1, hc.2, rfl⟩))⟩
      · exact absurd h (by simp)
  | spurious t =>
    simp only [System.waitStep] at h
    split at h
    · rename_i hc
      simp only [Option.some.injEq, Prod.mk.injEq] at h
      obtain ⟨rfl, rfl⟩ := h
      exact ⟨rfl, .inr (.inr (.inr ⟨t, rfl, hc, rfl⟩))⟩
    · exact absurd h (by simp)

/-- **With the condition variable, a machine does what it did without.** -/
theorem run_base {S : System σ ℓ ε T} {ls : List (Label ℓ T)} {s s' : State σ T} {τ : List ε}
    (h : run S.waitStep s ls = some (s', τ)) :
    run S.step s.base (ls.filterMap Label.base) = some (s'.base, τ) := by
  refine run_refines ?_ ?_ h
  · intro s l l' s' es hl hs
    cases l with
    | step l =>
      obtain rfl : l = l' := Option.some.inj hl
      obtain ⟨b, hb, -, rfl⟩ := step_cases hs
      exact hb
    | _ => exact absurd hl (by simp [Label.base])
  · intro s l s' es hl hs
    obtain ⟨rfl, h | h | h | h⟩ := quiet_cases hl hs
    · obtain ⟨t, -, -, -, -, -, rfl⟩ := h
      exact ⟨rfl, rfl⟩
    · obtain ⟨t, -, -, -, rfl⟩ := h
      exact ⟨rfl, rfl⟩
    · obtain ⟨-, -, -, rfl⟩ := h
      exact ⟨rfl, rfl⟩
    · obtain ⟨t, -, -, rfl⟩ := h
      exact ⟨rfl, rfl⟩

/-! ## 2. No wake-up is lost -/

def Wait.isAsleep : Wait → Nat
  | .asleep => 1
  | _ => 0

def Wait.isWoken : Wait → Nat
  | .woken => 1
  | _ => 0

def asleep (s : State σ T) : Nat := ∑ t, (s.wait t).isAsleep

def woken (s : State σ T) : Nat := ∑ t, (s.wait t).isWoken

omit [DecidableEq T] in
theorem asleep_le_card (s : State σ T) : asleep s ≤ Fintype.card T := by
  have h : asleep s ≤ ∑ _t : T, 1 := Finset.sum_le_sum fun t _ => by cases s.wait t <;> decide
  simpa using h

omit [DecidableEq T] in
theorem asleep_pos {s : State σ T} {t : T} (h : s.wait t = .asleep) : 0 < asleep s := by
  have hle := Threads.le_sum Wait.isAsleep s.wait t
  rw [h] at hle
  exact hle

omit [DecidableEq T] in
theorem asleep_eq_zero {s : State σ T} (h : ∀ t, s.wait t ≠ .asleep) : asleep s = 0 := by
  refine Finset.sum_eq_zero fun t _ => ?_
  cases ht : s.wait t with
  | asleep => exact absurd ht (h t)
  | _ => rfl

omit [DecidableEq T] in
theorem woken_eq_zero {s : State σ T} (h : ∀ t, s.wait t ≠ .woken) : woken s = 0 := by
  refine Finset.sum_eq_zero fun t _ => ?_
  cases ht : s.wait t with
  | woken => exact absurd ht (h t)
  | _ => rfl

/-- Every sleeper has a wake-up on its way, or there are enough of them, with the threads that have
    been woken, for all that could go on. -/
def System.Covered (S : System σ ℓ ε T) (s : State σ T) : Prop :=
  asleep s ≤ s.signals ∨ (S.flooded s.base = false ∧ S.ready s.base ≤ s.signals + woken s)

/-- How the machine treats the predicate, in the states that meet its invariant. -/
structure System.Lawful (S : System σ ℓ ε T) (Inv : σ → Prop) : Prop where
  keep : ∀ {s l s' es}, Inv s → S.step s l = some (s', es) → Inv s'
  /-- A `wait` ends where the predicate is true, and takes one away. -/
  resume : ∀ {s l s' es t}, Inv s → S.step s l = some (s', es) → S.resumes s l = some t →
    S.atWait s t = true ∧ (S.flooded s = true ∨
      (0 < S.ready s ∧ S.ready s' + 1 ≤ S.ready s + S.notifies s l))
  /-- Nothing else ends it. -/
  stay : ∀ {s l s' es t}, Inv s → S.step s l = some (s', es) → S.resumes s l ≠ some t →
    S.atWait s t = true → S.atWait s' t = true
  /-- Whoever makes the predicate true notifies. -/
  grow : ∀ {s l s' es}, Inv s → S.step s l = some (s', es) → S.ready s' ≤ S.ready s + S.notifies s l
  flood : ∀ {s l s' es}, Inv s → S.step s l = some (s', es) → S.flooded s' = true →
    S.flooded s = true ∨ Fintype.card T ≤ S.notifies s l

structure System.Sound (S : System σ ℓ ε T) (Inv : σ → Prop) (s : State σ T) : Prop where
  inv : Inv s.base
  covered : S.Covered s
  /-- Who sleeps, or has been woken, is still in `wait`. -/
  waits : ∀ t, s.wait t ≠ .awake → S.atWait s.base t = true

omit [DecidableEq T] in
theorem sound_start {S : System σ ℓ ε T} {Inv : σ → Prop} {b : σ} (hb : Inv b) :
    S.Sound Inv { base := b } := by
  refine ⟨hb, .inl ?_, fun t ht => absurd rfl ht⟩
  rw [asleep_eq_zero fun _ => by simp]

theorem sum_resumed (g : Wait → Nat) (s : State σ T) (t : T) :
    (∑ u, g (resumed s.wait (some t) u)) + g (s.wait t) = (∑ u, g (s.wait u)) + g .awake :=
  Threads.sum_update g s.wait t .awake

theorem sum_setWait (g : Wait → Nat) (s : State σ T) (t : T) (w : Wait) :
    (∑ u, g ((setWait s t w).wait u)) + g (s.wait t) = (∑ u, g (s.wait u)) + g w :=
  Threads.sum_update g s.wait t w

theorem System.Lawful.step {S : System σ ℓ ε T} {Inv : σ → Prop} (hS : S.Lawful Inv) {s s' : State σ T}
    {l : ℓ} {es : List ε} (hs : S.Sound Inv s) (h : S.waitStep s (.step l) = some (s', es)) :
    S.Sound Inv s' := by
  obtain ⟨b, hb, hawake, rfl⟩ := step_cases h
  have hgrow := hS.grow hs.inv hb
  refine ⟨hS.keep hs.inv hb, ?_, fun t ht => ?_⟩
  · -- Nobody falls asleep in such a step.
    have hasleep : ∑ u, (resumed s.wait (S.resumes s.base l) u).isAsleep = asleep s := by
      cases hr : S.resumes s.base l with
      | none => rfl
      | some t =>
        have hsum := sum_resumed Wait.isAsleep s t
        have hzero : (s.wait t).isAsleep = 0 := by
          cases ht : s.wait t with
          | asleep => exact absurd ht (hawake t hr)
          | _ => rfl
        rw [hzero] at hsum
        exact hsum
    unfold System.Covered
    rw [asleep, hasleep]
    rcases hs.covered with hcov | ⟨hflood, hcov⟩
    · exact .inl (hcov.trans (Nat.le_add_right ..))
    · cases hflood' : S.flooded b with
      | true =>
        refine .inl ?_
        rcases hS.flood hs.inv hb hflood' with hold | hcard
        · exact absurd (hold.symm.trans hflood) (by simp)
        · exact (asleep_le_card s).trans (hcard.trans (Nat.le_add_left ..))
      | false =>
        refine .inr ⟨rfl, ?_⟩
        dsimp only
        cases hr : S.resumes s.base l with
        | none =>
          show S.ready b ≤ s.signals + S.notifies s.base l + woken s
          omega
        | some t =>
          obtain ⟨-, hfl | ⟨-, htaken⟩⟩ := hS.resume hs.inv hb hr
          · exact absurd (hfl.symm.trans hflood) (by simp)
          · have hsum := sum_resumed Wait.isWoken s t
            have hle : (s.wait t).isWoken ≤ 1 := by cases s.wait t <;> decide
            change _ = woken s + 0 at hsum
            show S.ready b ≤ s.signals + S.notifies s.base l +
              ∑ u, (resumed s.wait (some t) u).isWoken
            omega
  · refine hS.stay hs.inv hb (fun hr => ?_) (hs.waits t ?_)
    · rw [hr] at ht
      exact ht (Function.update_self ..)
    · cases hr : S.resumes s.base l with
      | none =>
        rw [hr] at ht
        exact ht
      | some u =>
        rw [hr] at ht
        by_cases htu : t = u
        · subst htu
          exact absurd (Function.update_self ..) ht
        · change Function.update s.wait u .awake t ≠ .awake at ht
          rwa [Function.update_of_ne htu] at ht

/-- One thread that is in `wait` falls asleep or is woken. -/
theorem System.Sound.setWait {S : System σ ℓ ε T} {Inv : σ → Prop} {s : State σ T} (hs : S.Sound Inv s)
    {t : T} {w : Wait} {n : Nat} (hwait : S.atWait s.base t = true)
    (hcov : S.Covered (Condition.setWait { s with signals := n } t w)) :
    S.Sound Inv (Condition.setWait { s with signals := n } t w) := by
  refine ⟨hs.inv, hcov, fun u hu => ?_⟩
  by_cases hut : u = t
  · rw [hut]
    exact hwait
  · refine hs.waits u ?_
    rw [← Function.update_of_ne hut w s.wait]
    exact hu

theorem System.Lawful.wait {S : System σ ℓ ε T} {Inv : σ → Prop} (hS : S.Lawful Inv) {s s' : State σ T}
    {l : Label ℓ T} {es : List ε} (hs : S.Sound Inv s) (h : S.waitStep s l = some (s', es)) :
    S.Sound Inv s' := by
  cases hl : l.base with
  | some l' =>
    cases l with
    | step l => exact hS.step hs h
    | _ => exact absurd hl (by simp [Label.base])
  | none =>
    obtain ⟨-, h | h | h | h⟩ := quiet_cases hl h
    · obtain ⟨t, -, hwait, -, hready, hflood, rfl⟩ := h
      refine hs.setWait (n := s.signals) hwait (.inr ⟨hflood, ?_⟩)
      show S.ready s.base ≤ _
      omega
    · obtain ⟨t, -, hpos, ht, rfl⟩ := h
      refine hs.setWait (hs.waits t (by rw [ht]; decide)) ?_
      have ha := sum_setWait Wait.isAsleep s t .woken
      have hw := sum_setWait Wait.isWoken s t .woken
      rw [ht] at ha hw
      change _ + 1 = asleep s + 0 at ha
      change _ + 0 = woken s + 1 at hw
      rcases hs.covered with hcov | ⟨hflood, hcov⟩
      · refine .inl ?_
        show (∑ u, ((Condition.setWait s t .woken).wait u).isAsleep) ≤ s.signals - 1
        omega
      · refine .inr ⟨hflood, ?_⟩
        show S.ready s.base ≤ s.signals - 1 + ∑ u, ((Condition.setWait s t .woken).wait u).isWoken
        omega
    · obtain ⟨-, hpos, hnone, rfl⟩ := h
      refine ⟨hs.inv, .inl ?_, hs.waits⟩
      have hzero : asleep { s with signals := s.signals - 1 } = 0 := asleep_eq_zero hnone
      rw [hzero]
      exact Nat.zero_le _
    · obtain ⟨t, -, ht, rfl⟩ := h
      refine hs.setWait (n := s.signals) (hs.waits t (by rw [ht]; decide)) ?_
      have ha := sum_setWait Wait.isAsleep s t .woken
      have hw := sum_setWait Wait.isWoken s t .woken
      rw [ht] at ha hw
      change _ + 1 = asleep s + 0 at ha
      change _ + 0 = woken s + 1 at hw
      rcases hs.covered with hcov | ⟨hflood, hcov⟩
      · refine .inl ?_
        show (∑ u, ((Condition.setWait s t .woken).wait u).isAsleep) ≤ s.signals
        omega
      · refine .inr ⟨hflood, ?_⟩
        show S.ready s.base ≤ s.signals + ∑ u, ((Condition.setWait s t .woken).wait u).isWoken
        omega

theorem System.Lawful.run {S : System σ ℓ ε T} {Inv : σ → Prop} (hS : S.Lawful Inv) {s s' : State σ T}
    {ls : List (Label ℓ T)} {τ : List ε} (hs : S.Sound Inv s)
    (h : Machine.run S.waitStep s ls = some (s', τ)) : S.Sound Inv s' :=
  run_inv_state (S.Sound Inv) (fun hi hstep => hS.wait hi hstep) hs h

/-! ## 3. Nothing gets stuck -/

/-- A thread in `wait` has nothing else to do once the predicate is true. -/
def System.Resumes (S : System σ ℓ ε T) (Inv : σ → Prop) (work : ℓ → Bool) : Prop :=
  ∀ {s t}, Inv s → S.atWait s t = true → (S.flooded s = true ∨ 0 < S.ready s) →
    ∃ l b es, work l = true ∧ S.resumes s l = some t ∧ S.step s l = some (b, es)

variable {S : System σ ℓ ε T} {Inv : σ → Prop} {work : ℓ → Bool} {s : State σ T}

/-- Whoever is in `wait` and does not sleep finds the predicate true, or goes to sleep. -/
theorem System.Sound.asleep_of_stuck (hs : S.Sound Inv s) (hgo : S.Resumes Inv work)
    (hstuck : ∀ l : Label ℓ T, l.isWork work = true → S.waitStep s l = none) {t : T}
    (ht : S.atWait s.base t = true) : s.wait t = .asleep := by
  by_contra hawake
  by_cases hpred : S.flooded s.base = true ∨ 0 < S.ready s.base
  · obtain ⟨l, b, es, hl, hr, hb⟩ := hgo hs.inv ht hpred
    have hnone := hstuck (.step l) hl
    have hcond : ∀ u ∈ S.resumes s.base l, s.wait u ≠ .asleep := by
      intro u hu
      obtain rfl : t = u := Option.some.inj (hr.symm.trans hu)
      exact hawake
    rw [step_some hb hcond] at hnone
    exact absurd hnone (by simp)
  · have hnone := hstuck (.sleep t) rfl
    rw [not_or, Bool.not_eq_true] at hpred
    rw [System.waitStep, if_pos ⟨ht, hawake, by omega, hpred.1⟩] at hnone
    exact absurd hnone (by simp)

theorem signals_of_stuck (hstuck : ∀ l : Label ℓ T, l.isWork work = true → S.waitStep s l = none) :
    s.signals = 0 := by
  by_contra hne
  have hpos : 0 < s.signals := Nat.pos_of_ne_zero hne
  by_cases hsome : ∃ t, s.wait t = .asleep
  · obtain ⟨t, ht⟩ := hsome
    have hnone := hstuck (.notify (some t)) rfl
    rw [System.waitStep, if_pos ⟨hpos, ht⟩] at hnone
    exact absurd hnone (by simp)
  · have hnone := hstuck (.notify none) rfl
    rw [System.waitStep, if_pos ⟨hpos, fun t ht => hsome ⟨t, ht⟩⟩] at hnone
    exact absurd hnone (by simp)

/-- **No wake-up is lost**: when the threads cannot go on, they could not go on without the condition
    variable either. -/
theorem System.Sound.stuck_base (hS : S.Lawful Inv) (hs : S.Sound Inv s) (hgo : S.Resumes Inv work)
    (hstuck : ∀ l : Label ℓ T, l.isWork work = true → S.waitStep s l = none) :
    ∀ l, work l = true → S.step s.base l = none := by
  intro l hl
  by_contra hne
  obtain ⟨⟨b, es⟩, hb⟩ := Option.ne_none_iff_exists'.mp hne
  by_cases hfree : ∀ t ∈ S.resumes s.base l, s.wait t ≠ .asleep
  · have hnone := hstuck (.step l) hl
    rw [step_some hb hfree] at hnone
    exact absurd hnone (by simp)
  · push Not at hfree
    obtain ⟨t, hr, ht⟩ := hfree
    obtain ⟨-, hpred⟩ := hS.resume hs.inv hb hr
    have hwoken : woken s = 0 := woken_eq_zero fun u hu => by
      have := hs.asleep_of_stuck hgo hstuck (hs.waits u (by rw [hu]; decide))
      exact absurd (this.symm.trans hu) (by decide)
    have hsleeper := asleep_pos ht
    have hsignals := signals_of_stuck hstuck
    rcases hs.covered with hcov | ⟨hflood, hcov⟩
    · omega
    · rcases hpred with hfl | ⟨hready, -⟩
      · exact absurd (hfl.symm.trans hflood) (by simp)
      · omega

/-! ## 4. Nothing goes on for ever -/

/-- A thread that does not sleep may still look at the predicate. -/
def Wait.isUp : Wait → Nat
  | .asleep => 0
  | _ => 1

/-- What is left of `size`, where a step is followed by at most `n` notifications. -/
def rank (size : σ → Nat) (n : Nat) (s : State σ T) : Nat :=
  (2 * n + 1) * size s.base + 2 * s.signals + ∑ t, (s.wait t).isUp

omit [DecidableEq T] in
theorem rank_le (size : σ → Nat) (n : Nat) (s : State σ T) :
    rank size n s ≤ (2 * n + 1) * size s.base + 2 * s.signals + Fintype.card T := by
  have h : ∑ t, (s.wait t).isUp ≤ ∑ _t : T, 1 :=
    Finset.sum_le_sum fun t _ => by cases s.wait t <;> decide
  unfold rank
  simpa using h

variable (Inv) in
theorem rank_lt {size : σ → Nat} {n : Nat}
    (hsize : ∀ {b l b' es}, Inv b → work l = true → S.step b l = some (b', es) →
      size b' < size b ∧ S.notifies b l ≤ n)
    {s' : State σ T} {l : Label ℓ T} {es : List ε} (hi : Inv s.base) (hl : l.isWork work = true)
    (h : S.waitStep s l = some (s', es)) : rank size n s' < rank size n s := by
  cases hbase : l.base with
  | some l' =>
    cases l with
    | step l =>
      obtain ⟨b, hb, hawake, rfl⟩ := step_cases h
      obtain ⟨hlt, hle⟩ := hsize hi hl hb
      have hup : ∑ u, (resumed s.wait (S.resumes s.base l) u).isUp = ∑ u, (s.wait u).isUp := by
        cases hr : S.resumes s.base l with
        | none => rfl
        | some t =>
          have hsum := sum_resumed Wait.isUp s t
          have hone : (s.wait t).isUp = 1 := by
            cases ht : s.wait t with
            | asleep => exact absurd ht (hawake t hr)
            | _ => rfl
          rw [hone] at hsum
          exact Nat.add_right_cancel hsum
      have hmul : (2 * n + 1) * size b + (2 * n + 1) ≤ (2 * n + 1) * size s.base :=
        Nat.mul_le_mul_left (2 * n + 1) hlt
      unfold rank
      dsimp only
      rw [hup]
      omega
    | _ => exact absurd hbase (by simp [Label.base])
  | none =>
    unfold rank
    obtain ⟨-, h | h | h | h⟩ := quiet_cases hbase h
    · obtain ⟨t, -, -, hne, -, -, rfl⟩ := h
      have hsum := sum_setWait Wait.isUp s t .asleep
      have hone : (s.wait t).isUp = 1 := by
        cases ht : s.wait t with
        | asleep => exact absurd ht hne
        | _ => rfl
      rw [hone] at hsum
      change _ + 1 = _ + 0 at hsum
      show (2 * n + 1) * size s.base + 2 * s.signals + _ < _
      omega
    · obtain ⟨t, -, hpos, ht, rfl⟩ := h
      have hsum := sum_setWait Wait.isUp s t .woken
      rw [ht] at hsum
      change _ + 0 = _ + 1 at hsum
      show (2 * n + 1) * size s.base + 2 * (s.signals - 1) +
        (∑ u, ((Condition.setWait s t .woken).wait u).isUp) < _
      omega
    · obtain ⟨-, hpos, -, rfl⟩ := h
      dsimp only
      omega
    · obtain ⟨t, rfl, -⟩ := h
      exact absurd hl (by simp [Label.isWork])

end

end Condition
end Lib
