import EpollChat.Proof.Server.ThreadPool
import EpollChat.Server.Workers

/-!
# The workers wake up for every task

The condition variable of the pool is lawful (`condition_lawful`): a worker leaves its `wait` with one
task, or because of `stop`, and whoever puts a task into the queue notifies once. So no wake-up
is lost, however late a `notify_one` comes and whoever it wakes, and when no worker can go on, the
queue is empty and every task has been run (`workers_finish`). This takes a bounded number of
steps: `size` counts what is left of each task and each worker.
-/

namespace EpollChat
namespace ThreadPool

open Lib Machine Condition

variable {Task : Type} {threads : Nat}

/-! ## 1. The condition variable of the pool -/

theorem atWait_iff {s : State Task threads} {w : Fin threads} :
    atWait s w = true ↔ s.workers w = .waiting := by
  unfold atWait
  cases s.workers w <;> simp

theorem resumes_eq_some {s : State Task threads} {l : Label Task threads} {w : Fin threads} :
    resumes s l = some w ↔ l = .worker w ∧ s.workers w = .waiting := by
  cases l with
  | worker v =>
    simp only [resumes, Label.worker.injEq]
    split
    · rename_i hwait
      rw [Option.some.injEq]
      constructor
      · rintro rfl
        exact ⟨rfl, atWait_iff.mp hwait⟩
      · exact fun h => h.1
    · rename_i hwait
      constructor
      · exact fun h => absurd h (by simp)
      · rintro ⟨rfl, h⟩
        exact absurd (atWait_iff.mpr h) hwait
  | _ => exact ⟨fun h => absurd h (by simp [resumes]), fun h => absurd h.1 (by simp)⟩

/-- What a worker does next. -/
theorem workerStep_cases {s s' : State Task threads} {w : Fin threads} {es : List (Event Task)}
    (h : workerStep s w = some (s', es)) :
    (s.workers w = .waiting ∧ s.tasks = [] ∧ s.stop = true ∧ s' = setWorker s w .left) ∨
    (∃ task rest, s.workers w = .waiting ∧ s.tasks = task :: rest ∧
      s' = setWorker { s with tasks := rest } w (.fetched task)) ∨
    (∃ task, s.workers w = .fetched task ∧ s' = setWorker s w (.running task)) ∨
    ∃ task, s.workers w = .running task ∧ s' = setWorker s w .waiting := by
  unfold workerStep at h
  split at h
  · rename_i hpc
    split at h
    · rename_i htasks
      split at h
      · rename_i hstop
        simp only [Option.some.injEq, Prod.mk.injEq] at h
        exact .inl ⟨hpc, htasks, hstop, h.1.symm⟩
      · exact absurd h (by simp)
    · rename_i task rest htasks
      simp only [Option.some.injEq, Prod.mk.injEq] at h
      exact .inr (.inl ⟨task, rest, hpc, htasks, h.1.symm⟩)
  · rename_i task hpc
    simp only [Option.some.injEq, Prod.mk.injEq] at h
    exact .inr (.inr (.inl ⟨task, hpc, h.1.symm⟩))
  · rename_i task hpc
    simp only [Option.some.injEq, Prod.mk.injEq] at h
    exact .inr (.inr (.inr ⟨task, hpc, h.1.symm⟩))
  · exact absurd h (by simp)

/-- What the others do: put one task into the queue, or set `stop`, or nothing. -/
theorem step_others {s s' : State Task threads} {l : Label Task threads} {es : List (Event Task)}
    (hl : l.isWorker = false) (h : step s l = some (s', es)) :
    s'.workers = s.workers ∧ s'.tasks.length ≤ s.tasks.length + notifies s l ∧
      (s'.stop = true → s.stop = true ∨ l = .destroy) := by
  cases l with
  | worker w => exact absurd hl (by simp [Label.isWorker])
  | enqueue caller task =>
    simp only [step] at h
    split at h
    · simp only [enqueue, Option.some.injEq, Prod.mk.injEq] at h
      obtain ⟨rfl, -⟩ := h
      exact ⟨rfl, by simp [notifies], .inl⟩
    · exact absurd h (by simp)
  | tryEnqueue caller task =>
    simp only [step] at h
    split at h
    · rcases tryEnqueue_cases s task with hfull | ⟨hput, -⟩
      · rw [hfull] at h
        simp only [Option.some.injEq, Prod.mk.injEq] at h
        obtain ⟨rfl, -⟩ := h
        exact ⟨rfl, Nat.le_add_right .., .inl⟩
      · rw [hput] at h
        simp only [Option.some.injEq, Prod.mk.injEq] at h
        obtain ⟨rfl, -⟩ := h
        exact ⟨rfl, by simp [notifies, hput], .inl⟩
    · exact absurd h (by simp)
  | destroy =>
    simp only [step] at h
    split at h
    · exact absurd h (by simp)
    · simp only [Option.some.injEq, Prod.mk.injEq] at h
      obtain ⟨rfl, -⟩ := h
      exact ⟨rfl, Nat.le_add_right .., fun _ => .inr rfl⟩

/-- A worker's step leaves the others where they are, and the queue no longer. -/
theorem workerStep_frame {s s' : State Task threads} {w : Fin threads} {es : List (Event Task)}
    (h : workerStep s w = some (s', es)) :
    (∀ v, v ≠ w → s'.workers v = s.workers v) ∧ s'.tasks.length ≤ s.tasks.length ∧ s'.stop = s.stop := by
  rcases workerStep_cases h with ⟨-, -, -, rfl⟩ | ⟨task, rest, -, htasks, rfl⟩ | ⟨task, -, rfl⟩ |
    ⟨task, -, rfl⟩
  · exact ⟨fun v hv => Function.update_of_ne hv .., Nat.le_refl _, rfl⟩
  · refine ⟨fun v hv => Function.update_of_ne hv .., ?_, rfl⟩
    rw [htasks]
    exact Nat.le_succ _
  · exact ⟨fun v hv => Function.update_of_ne hv .., Nat.le_refl _, rfl⟩
  · exact ⟨fun v hv => Function.update_of_ne hv .., Nat.le_refl _, rfl⟩

/-- **The condition variable is used as it should be.** -/
theorem condition_lawful : (condition Task threads).Lawful fun _ => True := by
  refine ⟨fun _ _ => trivial, ?_, ?_, ?_, ?_⟩
  · intro s l s' es w _ h hr
    change step s l = some (s', es) at h
    obtain ⟨rfl, hwait⟩ := resumes_eq_some.mp hr
    refine ⟨atWait_iff.mpr hwait, ?_⟩
    rcases workerStep_cases h with ⟨-, -, hstop, -⟩ | ⟨task, rest, -, htasks, rfl⟩ | ⟨task, hpc, -⟩ |
      ⟨task, hpc, -⟩
    · exact .inl hstop
    · refine .inr ?_
      show 0 < s.tasks.length ∧ rest.length + 1 ≤ s.tasks.length + 0
      rw [htasks, List.length_cons]
      omega
    · rw [hwait] at hpc
      exact absurd hpc (by simp)
    · rw [hwait] at hpc
      exact absurd hpc (by simp)
  · intro s l s' es w _ h hr hwait
    change step s l = some (s', es) at h
    refine atWait_iff.mpr (Eq.trans ?_ (atWait_iff.mp hwait))
    cases l with
    | worker v =>
      refine (workerStep_frame h).1 w ?_
      rintro rfl
      exact hr (resumes_eq_some.mpr ⟨rfl, atWait_iff.mp hwait⟩)
    | _ => exact congrFun (step_others rfl h).1 w
  · intro s l s' es _ h
    change step s l = some (s', es) at h
    cases l with
    | worker v => exact (workerStep_frame h).2.1.trans (Nat.le_add_right ..)
    | _ => exact (step_others rfl h).2.1
  · intro s l s' es _ h hstop
    change step s l = some (s', es) at h
    cases l with
    | worker v => exact .inl ((workerStep_frame h).2.2.symm.trans hstop)
    | destroy => exact .inr (Nat.le_of_eq (Fintype.card_fin threads))
    | _ =>
      rcases (step_others rfl h).2.2 hstop with hold | hl
      · exact .inl hold
      · exact absurd hl (by simp)

theorem condition_resumes : (condition Task threads).Resumes (fun _ => True) Label.isWorker := by
  intro s w _ hwait hpred
  have hpc := atWait_iff.mp hwait
  refine ⟨.worker w, ?_⟩
  have hresumes : resumes s (.worker w) = some w := resumes_eq_some.mpr ⟨rfl, hpc⟩
  cases htasks : s.tasks with
  | cons task rest =>
    refine ⟨setWorker { s with tasks := rest } w (.fetched task), [.fetched task], rfl, hresumes, ?_⟩
    show workerStep s w = _
    rw [workerStep, hpc, htasks]
  | nil =>
    have hstop : s.stop = true := by
      rcases hpred with hstop | hpos
      · exact hstop
      · exact absurd hpos (by rw [show (condition Task threads).ready s = s.tasks.length from rfl, htasks]; simp)
    refine ⟨setWorker s w .left, [], rfl, hresumes, ?_⟩
    show workerStep s w = _
    rw [workerStep, hpc, htasks, hstop]
    rfl

/-! ## 2. What is left to do -/

/-- The steps a worker has before it is back at its `wait`, and the one to its end. -/
def WorkerPc.toGo : WorkerPc Task → Nat
  | .waiting => 1
  | .fetched _ => 3
  | .running _ => 2
  | .left => 0

def size (s : State Task threads) : Nat := 3 * s.tasks.length + ∑ w, (s.workers w).toGo

/-- The queue becomes `tasks`, and one worker moves. -/
theorem size_move (s : State Task threads) (tasks : List Task) (w : Fin threads) (pc : WorkerPc Task) :
    size (setWorker { s with tasks := tasks } w pc) + 3 * s.tasks.length + (s.workers w).toGo =
      size s + 3 * tasks.length + pc.toGo := by
  have hsum := Threads.sum_update WorkerPc.toGo s.workers w pc
  show 3 * tasks.length + (∑ v, (Function.update s.workers w pc v).toGo) + 3 * s.tasks.length +
    (s.workers w).toGo = 3 * s.tasks.length + (∑ v, (s.workers v).toGo) + 3 * tasks.length + pc.toGo
  omega

theorem size_lt {s s' : State Task threads} {l : Label Task threads} {es : List (Event Task)}
    (hl : l.isWorker = true) (h : step s l = some (s', es)) : size s' < size s ∧ notifies s l ≤ 0 := by
  cases l with
  | worker w =>
    refine ⟨?_, Nat.le_refl _⟩
    rcases workerStep_cases h with ⟨hpc, -, -, rfl⟩ | ⟨task, rest, hpc, htasks, rfl⟩ | ⟨task, hpc, rfl⟩ |
      ⟨task, hpc, rfl⟩
    · have hmove : size (setWorker s w .left) + _ + _ = _ := size_move s s.tasks w .left
      rw [hpc] at hmove
      simp only [WorkerPc.toGo] at hmove
      omega
    · have hmove := size_move s rest w (.fetched task)
      rw [hpc, htasks, List.length_cons] at hmove
      simp only [WorkerPc.toGo] at hmove
      omega
    · have hmove : size (setWorker s w (.running task)) + _ + _ = _ := size_move s s.tasks w (.running task)
      rw [hpc] at hmove
      simp only [WorkerPc.toGo] at hmove
      omega
    · have hmove : size (setWorker s w .waiting) + _ + _ = _ := size_move s s.tasks w .waiting
      rw [hpc] at hmove
      simp only [WorkerPc.toGo] at hmove
      omega
  | _ => exact absurd hl (by simp [Label.isWorker])

theorem rank_lt_of_isWork {s s' : Condition.State (State Task threads) (Fin threads)}
    {l : Condition.Label (Label Task threads) (Fin threads)} {es : List (Event Task)}
    (hl : l.isWork Label.isWorker = true)
    (h : (condition Task threads).waitStep s l = some (s', es)) : rank size 0 s' < rank size 0 s :=
  rank_lt (fun _ => True) (fun _ hw hb => size_lt hw hb) trivial hl h

/-! ## 3. Nothing is left undone -/

/-- When the workers cannot go on, each is in its `wait` with nothing to do, or has left. -/
theorem idle_of_stuck {s : State Task threads} (h : ∀ l : Label Task threads, l.isWorker = true →
      step s l = none) (w : Fin threads) :
    (s.workers w = .waiting ∧ s.tasks = [] ∧ s.stop = false) ∨ s.workers w = .left := by
  have hnone : workerStep s w = none := h (.worker w) rfl
  unfold workerStep at hnone
  split at hnone
  · rename_i hpc
    split at hnone
    · rename_i htasks
      split at hnone
      · exact absurd hnone (by simp)
      · rename_i hstop
        exact .inl ⟨hpc, htasks, by simpa using hstop⟩
    · exact absurd hnone (by simp)
  · exact absurd hnone (by simp)
  · exact absurd hnone (by simp)
  · rename_i hpc
    exact .inr hpc

/-- With an empty queue and no worker in the middle of a task, every accepted task has been run. -/
theorem Account.all_finished {s : State Task threads} {τ : List (Event Task)} (hi : Account s τ)
    (htasks : s.tasks = []) (hidle : ∀ w, s.workers w = .waiting ∨ s.workers w = .left) :
    (finishedTasks τ).Perm (acceptedTasks τ) := by
  have hhand : ∑ w, (s.workers w).inHand = 0 :=
    Finset.sum_eq_zero fun w _ => by rcases hidle w with h | h <;> rw [h] <;> rfl
  have hrun : ∑ w, (s.workers w).inRun = 0 :=
    Finset.sum_eq_zero fun w _ => by rcases hidle w with h | h <;> rw [h] <;> rfl
  have h₁ := hi.hand
  have h₂ := hi.run
  have h₃ := hi.queue
  rw [hhand, add_zero] at h₁
  rw [hrun, add_zero] at h₂
  rw [htasks, List.append_nil] at h₃
  rw [← Multiset.coe_eq_coe, h₂, h₁, h₃]

theorem account_run {maxQueueSize : Nat} (hpos : 0 < threads) {ls : List (Label Task threads)}
    {s : State Task threads} {τ : List (Event Task)}
    (h : run step (create Task threads maxQueueSize) ls = some (s, τ)) : Account s τ := by
  have hi := run_inv Account (fun hi hs => hi.step hpos hs) (account_create maxQueueSize) h
  rwa [List.nil_append] at hi

/-- **The workers finish what has been accepted.** However the threads sleep, are notified, wake up
    for no reason and overtake each other: the pool does nothing that its critical sections alone
    would not do; and from any state it comes to, as soon as no more tasks are handed in, the workers
    take a bounded number of steps, and stop only when every accepted task has been run to its
    end once, and after the destructor has set `stop`, only when all of them have left. -/
theorem workers_finish {maxQueueSize : Nat} (hpos : 0 < threads)
    {ls : List (Condition.Label (Label Task threads) (Fin threads))}
    {s : Condition.State (State Task threads) (Fin threads)} {τ : List (Event Task)}
    (h : run (condition Task threads).waitStep (start Task threads maxQueueSize) ls = some (s, τ)) :
    run step (create Task threads maxQueueSize) (ls.filterMap Condition.Label.base) = some (s.base, τ) ∧
    ∀ ls' s' τ', (∀ l ∈ ls', l.isWork Label.isWorker = true) →
      run (condition Task threads).waitStep s ls' = some (s', τ') →
      ls'.length ≤ size s.base + 2 * s.signals + threads ∧
      ((∀ l, l.isWork Label.isWorker = true → (condition Task threads).waitStep s' l = none) →
        s'.base.tasks = [] ∧ (finishedTasks (τ ++ τ')).Perm (acceptedTasks (τ ++ τ')) ∧
        (s'.base.stop = true → ∀ w, s'.base.workers w = .left)) := by
  refine ⟨run_base h, fun ls' s' τ' hwork h' => ⟨?_, fun hstuck => ?_⟩⟩
  · obtain ⟨-, hle⟩ := length_run_le _ (fun _ => True) (rank size 0)
      (fun _ hl hs => ⟨trivial, rank_lt_of_isWork hl hs⟩) trivial hwork h'
    have hrank := rank_le size 0 s
    rw [Fintype.card_fin] at hrank
    omega
  · have hrun := run_trans h' h
    have hsound : (condition Task threads).Sound (fun _ => True) s' :=
      condition_lawful.run (sound_start trivial) hrun
    have hbase := hsound.stuck_base condition_lawful condition_resumes hstuck
    have hi : Account s'.base (τ ++ τ') := account_run hpos (run_base hrun)
    have hidle := fun w => idle_of_stuck hbase w
    have htasks : s'.base.tasks = [] := by
      by_cases hleft : ∀ w, s'.base.workers w = .left
      · exact hi.gone hleft
      · push Not at hleft
        obtain ⟨w, hw⟩ := hleft
        rcases hidle w with hwait | hl
        · exact hwait.2.1
        · exact absurd hl hw
    refine ⟨htasks, hi.all_finished htasks fun w => ?_, fun hstop w => ?_⟩
    · rcases hidle w with hwait | hl
      · exact .inl hwait.1
      · exact .inr hl
    · rcases hidle w with hwait | hl
      · exact absurd (hwait.2.2.symm.trans hstop) (by simp)
      · exact hl

/-- A worker is asleep when a task comes; it is woken, runs it and sleeps again. -/
def whileAsleep (w : Fin 1) : List (Condition.Label (Label Nat 1) (Fin 1)) :=
  [.sleep w, .step (.tryEnqueue none 7)]

def wokenUp (w : Fin 1) : List (Condition.Label (Label Nat 1) (Fin 1)) :=
  [.notify (some w), .step (.worker w), .step (.worker w), .step (.worker w), .sleep w]

theorem workers_finish_whileAsleep : ∃ s s' τ τ',
    run (condition Nat 1).waitStep (start Nat 1 5) (whileAsleep 0) = some (s, τ) ∧
    run (condition Nat 1).waitStep s (wokenUp 0) = some (s', τ') ∧
    finishedTasks (τ ++ τ') = [7] ∧ 5 ≤ size s.base + 2 * s.signals + 1 := by
  have hruns : ((run (condition Nat 1).waitStep (start Nat 1 5) (whileAsleep 0)).bind fun p =>
      (run (condition Nat 1).waitStep p.1 (wokenUp 0)).map fun q => finishedTasks (p.2 ++ q.2)) =
      some [7] := by decide
  obtain ⟨⟨s, τ⟩, h, hruns⟩ := Option.bind_eq_some_iff.mp hruns
  obtain ⟨⟨s', τ'⟩, h', hdone⟩ := Option.map_eq_some_iff.mp hruns
  have hwork : ∀ l ∈ wokenUp 0, l.isWork Label.isWorker = true := by decide
  exact ⟨s, s', τ, τ', h, h', hdone, ((workers_finish (by decide) h).2 (wokenUp 0) s' τ' hwork h').1⟩

end ThreadPool
end EpollChat
