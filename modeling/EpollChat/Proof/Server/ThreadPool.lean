import EpollChat.Lib.Threads
import EpollChat.Server.ThreadPool
import Mathlib.Algebra.Order.Group.Multiset

/-!
# Every accepted task is run once

Between its acceptance and its end a task is in one place: in the queue, in the hands of a
worker that has fetched it, or running. `Account` says so as an equation of multisets for
each of the three passages, where the queue keeps the order as well. A worker leaves only
when `stop` is set and the queue is empty, and after that only running tasks add to the
queue: so when all have left, nothing is in any of the three places.
-/

namespace EpollChat
namespace ThreadPool

open Lib Machine

variable {Task : Type} {threads : Nat}

/-! ## 1. Reading a trace -/

def acceptedTasks (τ : List (Event Task)) : List Task :=
  τ.filterMap fun
    | .accepted task => some task
    | _ => none

/-- The tasks in the order in which they left the queue. -/
def fetchedTasks (τ : List (Event Task)) : List Task :=
  τ.filterMap fun
    | .fetched task => some task
    | _ => none

def startedTasks (τ : List (Event Task)) : List Task :=
  τ.filterMap fun
    | .started task => some task
    | _ => none

def finishedTasks (τ : List (Event Task)) : List Task :=
  τ.filterMap fun
    | .finished task => some task
    | _ => none

@[simp] theorem acceptedTasks_append (τ τ' : List (Event Task)) :
    acceptedTasks (τ ++ τ') = acceptedTasks τ ++ acceptedTasks τ' := List.filterMap_append

@[simp] theorem fetchedTasks_append (τ τ' : List (Event Task)) :
    fetchedTasks (τ ++ τ') = fetchedTasks τ ++ fetchedTasks τ' := List.filterMap_append

@[simp] theorem startedTasks_append (τ τ' : List (Event Task)) :
    startedTasks (τ ++ τ') = startedTasks τ ++ startedTasks τ' := List.filterMap_append

@[simp] theorem finishedTasks_append (τ τ' : List (Event Task)) :
    finishedTasks (τ ++ τ') = finishedTasks τ ++ finishedTasks τ' := List.filterMap_append

/-! ## 2. Where a task is -/

def WorkerPc.inHand : WorkerPc Task → Multiset Task
  | .fetched task => {task}
  | _ => 0

def WorkerPc.inRun : WorkerPc Task → Multiset Task
  | .running task => {task}
  | _ => 0

structure Account (s : State Task threads) (τ : List (Event Task)) : Prop where
  queue : fetchedTasks τ ++ s.tasks = acceptedTasks τ
  hand : (startedTasks τ : Multiset Task) + ∑ w, (s.workers w).inHand = fetchedTasks τ
  run : (finishedTasks τ : Multiset Task) + ∑ w, (s.workers w).inRun = startedTasks τ
  stop : ∀ w, s.workers w = .left → s.stop = true
  gone : (∀ w, s.workers w = .left) → s.tasks = []

theorem Account.started_le {s : State Task threads} {τ : List (Event Task)} (hi : Account s τ) :
    (startedTasks τ).Subperm (acceptedTasks τ) := by
  have h₁ : (startedTasks τ).Subperm (fetchedTasks τ) := by
    rw [← Multiset.coe_le, ← hi.hand]
    exact Multiset.le_add_right ..
  refine h₁.trans (List.Sublist.subperm ?_)
  rw [← hi.queue]
  exact List.sublist_append_left ..

/-- With all workers gone, each of the three places is empty. -/
theorem Account.finished_perm {s : State Task threads} {τ : List (Event Task)} (hi : Account s τ)
    (hleft : ∀ w, s.workers w = .left) : (finishedTasks τ).Perm (acceptedTasks τ) := by
  have hhand := hi.hand
  have hrun := hi.run
  have hqueue := hi.queue
  have h₁ : ∑ w, (s.workers w).inHand = 0 :=
    Finset.sum_eq_zero fun w _ => by rw [hleft w]; rfl
  have h₂ : ∑ w, (s.workers w).inRun = 0 :=
    Finset.sum_eq_zero fun w _ => by rw [hleft w]; rfl
  rw [h₁, add_zero] at hhand
  rw [h₂, add_zero] at hrun
  rw [hi.gone hleft, List.append_nil] at hqueue
  rw [← Multiset.coe_eq_coe, hrun, hhand, hqueue]

/-! ## 3. Steps -/

theorem tryEnqueue_cases (s : State Task threads) (task : Task) :
    tryEnqueue s task = (false, s) ∨
    (tryEnqueue s task = (true, { s with tasks := s.tasks ++ [task] }) ∧ s.stop = false ∧
      ¬ (0 < s.max_queue_size ∧ s.max_queue_size ≤ s.tasks.length)) := by
  unfold tryEnqueue
  split
  · exact .inl rfl
  · next hstop =>
    split
    · exact .inl rfl
    · next hfull => exact .inr ⟨rfl, by simpa using hstop, hfull⟩

/-- A task is put into the queue while some worker is still there. -/
theorem Account.accept {s : State Task threads} {τ : List (Event Task)} (hi : Account s τ) {task : Task}
    (hthere : ∃ w, s.workers w ≠ .left) :
    Account { s with tasks := s.tasks ++ [task] } (τ ++ [.accepted task]) := by
  refine ⟨?_, ?_, ?_, hi.stop, ?_⟩
  · rw [acceptedTasks_append, fetchedTasks_append, ← hi.queue]
    simp [acceptedTasks, fetchedTasks]
  · rw [startedTasks_append, fetchedTasks_append]
    simpa [startedTasks, fetchedTasks] using hi.hand
  · rw [startedTasks_append, finishedTasks_append]
    simpa [startedTasks, finishedTasks] using hi.run
  · intro hleft
    obtain ⟨w, hw⟩ := hthere
    exact absurd (hleft w) hw

/-- A try that is refused, and the destructor's step. -/
theorem Account.quiet {s : State Task threads} {τ es : List (Event Task)} {stop : Bool} (hi : Account s τ)
    (hes : es = [] ∨ ∃ task, es = [.refused task]) (hstop : s.stop = true → stop = true) :
    Account { s with stop := stop } (τ ++ es) := by
  have hnone : acceptedTasks es = [] ∧ fetchedTasks es = [] ∧ startedTasks es = [] ∧
      finishedTasks es = [] := by
    rcases hes with rfl | ⟨task, rfl⟩ <;> exact ⟨rfl, rfl, rfl, rfl⟩
  obtain ⟨h₁, h₂, h₃, h₄⟩ := hnone
  refine ⟨?_, ?_, ?_, fun w hw => hstop (hi.stop w hw), hi.gone⟩
  · rw [acceptedTasks_append, fetchedTasks_append, h₁, h₂, List.append_nil, List.append_nil]
    exact hi.queue
  · rw [startedTasks_append, fetchedTasks_append, h₂, h₃, List.append_nil, List.append_nil]
    exact hi.hand
  · rw [startedTasks_append, finishedTasks_append, h₃, h₄, List.append_nil, List.append_nil]
    exact hi.run

/-- A worker that goes on without leaving. -/
theorem Account.goOn {s : State Task threads} {τ τ' : List (Event Task)} {w : Fin threads}
    {pc : WorkerPc Task} {tasks : List Task} (hi : Account s τ) (hpc : pc ≠ .left)
    (hqueue : fetchedTasks τ' ++ tasks = acceptedTasks τ')
    (hhand : (startedTasks τ' : Multiset Task) + pc.inHand + fetchedTasks τ =
      (fetchedTasks τ' : Multiset Task) + (startedTasks τ + (s.workers w).inHand))
    (hrun : (finishedTasks τ' : Multiset Task) + pc.inRun + startedTasks τ =
      (startedTasks τ' : Multiset Task) + (finishedTasks τ + (s.workers w).inRun)) :
    Account (setWorker { s with tasks := tasks } w pc) τ' := by
  refine ⟨hqueue, Threads.add_sum_update hi.hand hhand, Threads.add_sum_update hi.run hrun, ?_, ?_⟩
  · intro u hu
    have hu : Function.update s.workers w pc u = .left := hu
    by_cases huw : u = w
    · rw [huw, Function.update_self] at hu
      exact absurd hu hpc
    · rw [Function.update_of_ne huw] at hu
      exact hi.stop u hu
  · intro hleft
    have hw : Function.update s.workers w pc w = .left := hleft w
    rw [Function.update_self] at hw
    exact absurd hw hpc

theorem Account.workerStep {s s' : State Task threads} {τ es : List (Event Task)} {w : Fin threads}
    (hi : Account s τ) (h : workerStep s w = some (s', es)) : Account s' (τ ++ es) := by
  cases hpc : s.workers w with
  | waiting =>
    simp only [ThreadPool.workerStep, hpc] at h
    split at h
    · next htasks =>
      split at h
      · next hstop =>
        simp only [Option.some.injEq, Prod.mk.injEq] at h
        obtain ⟨rfl, rfl⟩ := h
        rw [List.append_nil]
        refine ⟨hi.queue, Threads.add_sum_update hi.hand ?_, Threads.add_sum_update hi.run ?_,
          fun _ _ => hstop, fun _ => htasks⟩
        · rw [hpc]
          exact add_comm ..
        · rw [hpc]
          exact add_comm ..
      · exact absurd h (by simp)
    · next task rest htasks =>
      simp only [Option.some.injEq, Prod.mk.injEq] at h
      obtain ⟨rfl, rfl⟩ := h
      refine hi.goOn (by simp) ?_ ?_ ?_
      · rw [acceptedTasks_append, fetchedTasks_append, ← hi.queue, htasks]
        simp [acceptedTasks, fetchedTasks]
      · rw [hpc, startedTasks_append, fetchedTasks_append]
        simp only [startedTasks, fetchedTasks, WorkerPc.inHand, List.filterMap_cons, List.filterMap_nil,
          ← Multiset.coe_add, Multiset.coe_nil, Multiset.coe_singleton, add_zero]
        ac_rfl
      · rw [hpc, startedTasks_append, finishedTasks_append]
        simp only [startedTasks, finishedTasks, WorkerPc.inRun, List.filterMap_cons, List.filterMap_nil,
          ← Multiset.coe_add, Multiset.coe_nil, add_zero]
        ac_rfl
  | fetched task =>
    simp only [ThreadPool.workerStep, hpc, Option.some.injEq, Prod.mk.injEq] at h
    obtain ⟨rfl, rfl⟩ := h
    refine hi.goOn (by simp) ?_ ?_ ?_
    · rw [acceptedTasks_append, fetchedTasks_append, ← hi.queue]
      simp [acceptedTasks, fetchedTasks]
    · rw [hpc, startedTasks_append, fetchedTasks_append]
      simp only [startedTasks, fetchedTasks, WorkerPc.inHand, List.filterMap_cons, List.filterMap_nil,
        ← Multiset.coe_add, Multiset.coe_nil, Multiset.coe_singleton, add_zero]
      ac_rfl
    · rw [hpc, startedTasks_append, finishedTasks_append]
      simp only [startedTasks, finishedTasks, WorkerPc.inRun, List.filterMap_cons, List.filterMap_nil,
        ← Multiset.coe_add, Multiset.coe_nil, Multiset.coe_singleton, add_zero]
      ac_rfl
  | running task =>
    simp only [ThreadPool.workerStep, hpc, Option.some.injEq, Prod.mk.injEq] at h
    obtain ⟨rfl, rfl⟩ := h
    refine hi.goOn (by simp) ?_ ?_ ?_
    · rw [acceptedTasks_append, fetchedTasks_append, ← hi.queue]
      simp [acceptedTasks, fetchedTasks]
    · rw [hpc, startedTasks_append, fetchedTasks_append]
      simp only [startedTasks, fetchedTasks, WorkerPc.inHand, List.filterMap_cons, List.filterMap_nil,
        ← Multiset.coe_add, Multiset.coe_nil, add_zero]
      ac_rfl
    · rw [hpc, startedTasks_append, finishedTasks_append]
      simp only [startedTasks, finishedTasks, WorkerPc.inRun, List.filterMap_cons, List.filterMap_nil,
        ← Multiset.coe_add, Multiset.coe_nil, Multiset.coe_singleton, add_zero]
      ac_rfl
  | left => simp [ThreadPool.workerStep, hpc] at h

/-- Whoever may still call finds a worker that has not left. -/
theorem Account.there {s : State Task threads} {τ : List (Event Task)} (hi : Account s τ)
    (hpos : 0 < threads) {outside : Bool} {caller : Option (Fin threads)}
    (h : mayCall s outside caller = true) (hout : outside = true → s.stop = false) :
    ∃ w, s.workers w ≠ .left := by
  cases caller with
  | none =>
    refine ⟨⟨0, hpos⟩, fun hleft => ?_⟩
    have := hi.stop _ hleft
    rw [hout h] at this
    exact absurd this (by simp)
  | some w =>
    refine ⟨w, fun hleft => ?_⟩
    simp [mayCall, hleft] at h

theorem Account.step {s s' : State Task threads} {τ es : List (Event Task)} {l : Label Task threads}
    (hpos : 0 < threads) (hi : Account s τ) (h : step s l = some (s', es)) : Account s' (τ ++ es) := by
  cases l with
  | enqueue caller task =>
    simp only [ThreadPool.step] at h
    split at h
    · next hcall =>
      simp only [Option.some.injEq, Prod.mk.injEq] at h
      obtain ⟨rfl, rfl⟩ := h
      exact hi.accept (hi.there hpos hcall (by simp))
    · exact absurd h (by simp)
  | tryEnqueue caller task =>
    simp only [ThreadPool.step] at h
    split at h
    · next hcall =>
      obtain hno | ⟨hyes, hstop, -⟩ := tryEnqueue_cases s task
      · simp only [hno, Option.some.injEq, Prod.mk.injEq] at h
        obtain ⟨rfl, rfl⟩ := h
        exact hi.quiet (.inr ⟨task, rfl⟩) id
      · simp only [hyes, Option.some.injEq, Prod.mk.injEq] at h
        obtain ⟨rfl, rfl⟩ := h
        exact hi.accept (hi.there hpos hcall (fun _ => hstop))
    · exact absurd h (by simp)
  | worker w => exact hi.workerStep h
  | destroy =>
    simp only [ThreadPool.step] at h
    split at h
    · exact absurd h (by simp)
    · simp only [Option.some.injEq, Prod.mk.injEq] at h
      obtain ⟨rfl, rfl⟩ := h
      exact hi.quiet (.inl rfl) (fun _ => rfl)

/-! ## 4. Runs -/

theorem account_create (maxQueueSize : Nat) : Account (create Task threads maxQueueSize) [] := by
  refine ⟨rfl, ?_, ?_, fun w hw => absurd hw (by simp [create]), fun _ => rfl⟩
  · simp [create, startedTasks, fetchedTasks, WorkerPc.inHand]
  · simp [create, startedTasks, finishedTasks, WorkerPc.inRun]

/-- The label is not a call of `enqueue`. -/
def Label.isTry : Label Task threads → Prop
  | .enqueue .. => False
  | _ => True

/-- Without `enqueue` the queue keeps to its limit. -/
theorem length_step {s s' : State Task threads} {es : List (Event Task)} {l : Label Task threads}
    {n : Nat} (hpos : 0 < n) (hi : s.max_queue_size = n ∧ s.tasks.length ≤ n) (hl : l.isTry)
    (h : step s l = some (s', es)) : s'.max_queue_size = n ∧ s'.tasks.length ≤ n := by
  cases l with
  | enqueue caller task => exact absurd hl (by simp [Label.isTry])
  | tryEnqueue caller task =>
    simp only [ThreadPool.step] at h
    split at h
    · obtain hno | ⟨hyes, -, hroom⟩ := tryEnqueue_cases s task
      · simp only [hno, Option.some.injEq, Prod.mk.injEq] at h
        obtain ⟨rfl, -⟩ := h
        exact hi
      · simp only [hyes, Option.some.injEq, Prod.mk.injEq] at h
        obtain ⟨rfl, -⟩ := h
        refine ⟨hi.1, ?_⟩
        rw [hi.1] at hroom
        show (s.tasks ++ [task]).length ≤ n
        rw [List.length_append, List.length_singleton]
        omega
    · exact absurd h (by simp)
  | worker w =>
    cases hpc : s.workers w with
    | waiting =>
      simp only [ThreadPool.step, ThreadPool.workerStep, hpc] at h
      split at h
      · split at h
        · simp only [Option.some.injEq, Prod.mk.injEq] at h
          obtain ⟨rfl, -⟩ := h
          exact hi
        · exact absurd h (by simp)
      · next task rest htasks =>
        simp only [Option.some.injEq, Prod.mk.injEq] at h
        obtain ⟨rfl, -⟩ := h
        have hlen : s.tasks.length = rest.length + 1 := by rw [htasks, List.length_cons]
        refine ⟨hi.1, ?_⟩
        show rest.length ≤ n
        omega
    | fetched task =>
      simp only [ThreadPool.step, ThreadPool.workerStep, hpc, Option.some.injEq, Prod.mk.injEq] at h
      obtain ⟨rfl, -⟩ := h
      exact hi
    | running task =>
      simp only [ThreadPool.step, ThreadPool.workerStep, hpc, Option.some.injEq, Prod.mk.injEq] at h
      obtain ⟨rfl, -⟩ := h
      exact hi
    | left => simp [ThreadPool.step, ThreadPool.workerStep, hpc] at h
  | destroy =>
    simp only [ThreadPool.step] at h
    split at h
    · exact absurd h (by simp)
    · simp only [Option.some.injEq, Prod.mk.injEq] at h
      obtain ⟨rfl, -⟩ := h
      exact hi

/-- **Every accepted task runs once.** In every interleaving tasks leave the queue in the
    order of their acceptance, and none is started more often than it was accepted; a
    `try_enqueue` that returns false leaves the pool as it is; with `try_enqueue` alone the
    queue keeps to its limit; and once all workers have left, the queue is empty and
    exactly the accepted tasks have been run to their end. -/
theorem accepted_tasks_run_once {maxQueueSize : Nat} (hpos : 0 < threads)
    {ls : List (Label Task threads)} {s : State Task threads} {τ : List (Event Task)}
    (h : run step (create Task threads maxQueueSize) ls = some (s, τ)) :
    fetchedTasks τ ++ s.tasks = acceptedTasks τ ∧
    (startedTasks τ).Subperm (acceptedTasks τ) ∧
    (∀ task, (tryEnqueue s task).1 = false → (tryEnqueue s task).2 = s) ∧
    (0 < maxQueueSize → (∀ l ∈ ls, l.isTry) → s.tasks.length ≤ maxQueueSize) ∧
    ((∀ w, s.workers w = .left) → s.tasks = [] ∧ (finishedTasks τ).Perm (acceptedTasks τ)) := by
  have hi : Account s τ := by
    have := run_inv Account (fun hi hs => hi.step hpos hs) (account_create maxQueueSize) h
    rwa [List.nil_append] at this
  refine ⟨hi.queue, hi.started_le, ?_, ?_, fun hleft => ⟨hi.gone hleft, hi.finished_perm hleft⟩⟩
  · intro task hfalse
    obtain hno | ⟨hyes, -⟩ := tryEnqueue_cases s task
    · rw [hno]
    · rw [hyes] at hfalse
      exact absurd hfalse (by simp)
  · intro hmax htry
    refine (run_inv_of_meets (P := fun _ l => l.isTry)
      (fun s _ => s.max_queue_size = maxQueueSize ∧ s.tasks.length ≤ maxQueueSize) ?_ (τ := [])
      ⟨rfl, Nat.zero_le _⟩ (meets_of_labels htry) h).2
    intro s τ l s' es hi hl hs
    exact length_step hmax hi hl hs

/-- One worker, whose first task calls `enqueue` after the destructor has set `stop`. -/
def lastTask : List (Label Nat 1) :=
  [.tryEnqueue none 1, .worker 0, .worker 0, .destroy, .enqueue (some 0) 2, .tryEnqueue (some 0) 3,
    .worker 0, .worker 0, .worker 0, .worker 0, .worker 0]

theorem accepted_tasks_run_once_lastTask :
    ∃ s τ, run step (create Nat 1 5) lastTask = some (s, τ) ∧ s.workers 0 = .left ∧
      finishedTasks τ = [1, 2] ∧
      (fetchedTasks τ ++ s.tasks = acceptedTasks τ ∧
      (startedTasks τ).Subperm (acceptedTasks τ) ∧
      (∀ task, (tryEnqueue s task).1 = false → (tryEnqueue s task).2 = s) ∧
      (0 < 5 → (∀ l ∈ lastTask, l.isTry) → s.tasks.length ≤ 5) ∧
      ((∀ w, s.workers w = .left) → s.tasks = [] ∧ (finishedTasks τ).Perm (acceptedTasks τ))) := by
  obtain ⟨⟨s, τ⟩, hrun, hs⟩ := Option.map_eq_some_iff.mp
    (show (run step (create Nat 1 5) lastTask).map (fun p => (p.1.workers 0, finishedTasks p.2)) =
      some (.left, [1, 2]) by decide)
  obtain ⟨hleft, hfin⟩ := Prod.mk.inj hs
  exact ⟨s, τ, hrun, hleft, hfin, accepted_tasks_run_once (by decide) hrun⟩

end ThreadPool
end EpollChat
