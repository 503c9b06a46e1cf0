import EpollChat.Lib.Threads
import EpollChat.Server.Admission

/-!
# The limit on the worker queues is exact

Counting first and looking afterwards lets the counter run over the limit, by as many as there are
callers on their way out again. It never lets a task in too many: a caller that will be let in has
found a count that included it and every task that was in, so the promises and the tasks together
stay within the limit (`Admitted.limit`). And as every count is taken back by the one who made it,
none is lost and none is taken back twice (`Admitted.depth_eq`).
-/

namespace EpollChat
namespace Admission

open Lib

/-! ## 1. The invariant -/

/-- The call has found a depth with which it will be accepted. -/
def CallPc.isPromised : CallPc → Nat
  | .counted depth => if depth ≤ kWorkerQueueLimit then 1 else 0
  | _ => 0

theorem isPromised_le (pc : CallPc) : pc.isPromised ≤ pc.isDeciding := by
  cases pc with
  | counted depth =>
    simp only [CallPc.isPromised, CallPc.isDeciding]
    split
    · exact Nat.le_refl _
    · exact Nat.zero_le _
  | idle => exact Nat.le_refl _
  | refused => exact Nat.zero_le _
  | accepted => exact Nat.le_refl _

section

variable {ι : Type} [Fintype ι] {threads : Nat}

def Queue.promised (q : Queue ι threads) : Nat := ∑ i, (q.calls i).isPromised

structure Admitted (q : Queue ι threads) : Prop where
  depth_eq : q.depth = q.unfinished + q.deciding + q.finishing
  limit : q.unfinished + q.promised ≤ kWorkerQueueLimit
  queued : ∀ t ∈ q.pool.tasks, t = .unfinished
  fetched : ∀ w t, q.pool.workers w = .fetched t → t = .unfinished

theorem admitted_start : Admitted ({} : Queue ι threads) := by
  have hcalls : ∀ g : CallPc → Nat, g .idle = 0 → ∑ _i : ι, g .idle = 0 :=
    fun g hg => by rw [hg, Finset.sum_const_zero]
  have hworkers : ∀ g : ThreadPool.WorkerPc Wrapped → Nat, g .waiting = 0 →
      ∑ _w : Fin threads, g .waiting = 0 := fun g hg => by rw [hg, Finset.sum_const_zero]
  have hunfinished : ({} : Queue ι threads).unfinished = 0 := by
    show (∑ _i : ι, CallPc.idle.isAccepted) + 0 + ∑ _w : Fin threads, hasUnfinished .waiting = 0
    rw [hcalls _ rfl, hworkers _ rfl]
  have hdeciding : ({} : Queue ι threads).deciding = 0 := hcalls _ rfl
  have hpromised : ({} : Queue ι threads).promised = 0 := hcalls _ rfl
  have hfinishing : ({} : Queue ι threads).finishing = 0 := hworkers _ rfl
  refine ⟨?_, ?_, fun t ht => absurd ht List.not_mem_nil, fun w t h => absurd h (by simp [ThreadPool.create])⟩
  · rw [hunfinished, hdeciding, hfinishing]
  · rw [hunfinished, hpromised]
    exact Nat.zero_le _

theorem promised_le_deciding (q : Queue ι threads) : q.promised ≤ q.deciding :=
  Finset.sum_le_sum fun i _ => isPromised_le (q.calls i)

theorem fetchSub_pos {depth : Nat} (h : 0 < depth) : fetchSub depth = (depth - 1, []) :=
  if_neg (by omega)

/-! ## 2. Moves -/

/-- A call goes on. What it counted for goes with it, into the count or into the queue; only a call
    that has just been counted may be promised something. -/
theorem Admitted.moveCall [DecidableEq ι] {q : Queue ι threads} (hq : Admitted q) {i : ι}
    {pc : CallPc} (pc' : CallPc) (depth : Nat) (tasks : List Wrapped) (hpc : q.calls i = pc)
    (hdepth : depth + (pc.isAccepted + pc.isDeciding) + q.pool.tasks.length
      = q.depth + (pc'.isAccepted + pc'.isDeciding) + tasks.length)
    (hlimit : pc'.isAccepted + pc'.isPromised + tasks.length
      ≤ pc.isAccepted + pc.isPromised + q.pool.tasks.length ∨ depth ≤ kWorkerQueueLimit)
    (htasks : ∀ t ∈ tasks, t = .unfinished) :
    Admitted { setCall q i pc' with depth := depth, pool := { q.pool with tasks := tasks } } := by
  subst hpc
  have ha := Threads.sum_update CallPc.isAccepted q.calls i pc'
  have hd := Threads.sum_update CallPc.isDeciding q.calls i pc'
  have hp := Threads.sum_update CallPc.isPromised q.calls i pc'
  have hold := hq.depth_eq
  have hle := promised_le_deciding
    { setCall q i pc' with depth := depth, pool := { q.pool with tasks := tasks } }
  have hlim := hq.limit
  simp only [Queue.unfinished, Queue.deciding, Queue.finishing, Queue.promised, setCall] at hold hle hlim
  refine ⟨?_, ?_, htasks, hq.fetched⟩
  · simp only [Queue.unfinished, Queue.deciding, Queue.finishing, setCall]
    omega
  · simp only [Queue.unfinished, Queue.promised, setCall]
    rcases hlimit with hlimit | hlimit
    · omega
    · -- all that is accepted or promised is in the count
      omega

/-- A worker goes on. -/
theorem Admitted.moveWorker {q : Queue ι threads} (hq : Admitted q) {w : Fin threads}
    {pc : ThreadPool.WorkerPc Wrapped} (pc' : ThreadPool.WorkerPc Wrapped) (depth : Nat)
    (tasks : List Wrapped) (hpc : q.pool.workers w = pc)
    (hdepth : depth + (hasUnfinished pc + hasFinished pc) + q.pool.tasks.length
      = q.depth + (hasUnfinished pc' + hasFinished pc') + tasks.length)
    (hlimit : hasUnfinished pc' + tasks.length ≤ hasUnfinished pc + q.pool.tasks.length)
    (htasks : ∀ t ∈ tasks, t = .unfinished) (hfetched : ∀ t, pc' = .fetched t → t = .unfinished) :
    Admitted { q with
      depth := depth
      pool := ThreadPool.setWorker { q.pool with tasks := tasks } w pc' } := by
  subst hpc
  have hu := Threads.sum_update hasUnfinished q.pool.workers w pc'
  have hf := Threads.sum_update hasFinished q.pool.workers w pc'
  refine ⟨?_, ?_, htasks, fun v t hv => ?_⟩
  · have hold := hq.depth_eq
    simp only [Queue.unfinished, Queue.deciding, Queue.finishing, ThreadPool.setWorker] at hold ⊢
    omega
  · have hold := hq.limit
    simp only [Queue.unfinished, Queue.promised, ThreadPool.setWorker] at hold ⊢
    omega
  · simp only [ThreadPool.setWorker] at hv
    by_cases hvw : v = w
    · subst hvw
      rw [Function.update_self] at hv
      exact hfetched t hv
    · rw [Function.update_of_ne hvw] at hv
      exact hq.fetched v t hv

/-- Somebody who is counted is in the count. -/
theorem Admitted.depth_pos_of_call {q : Queue ι threads} (hq : Admitted q) {i : ι}
    (hpc : (q.calls i).isDeciding = 1) : 0 < q.depth := by
  have hle := Threads.le_sum CallPc.isDeciding q.calls i
  have hdepth := hq.depth_eq
  unfold Queue.deciding at hdepth
  omega

theorem Admitted.depth_pos_of_worker {q : Queue ι threads} (hq : Admitted q) {w : Fin threads}
    (hpc : hasFinished (q.pool.workers w) = 1) : 0 < q.depth := by
  have hle := Threads.le_sum hasFinished q.pool.workers w
  have hdepth := hq.depth_eq
  unfold Queue.finishing at hdepth
  omega

/-! ## 3. Steps -/

theorem Admitted.enqueueTask [DecidableEq ι] {q : Queue ι threads} (hq : Admitted q) (i : ι) :
    Admitted (enqueueTask q i).1 ∧ .underflow ∉ (enqueueTask q i).2 := by
  unfold Admission.enqueueTask
  cases hpc : q.calls i with
  | idle =>
    refine ⟨hq.moveCall (.counted (q.depth + 1)) (q.depth + 1) q.pool.tasks hpc ?_ ?_ hq.queued,
      List.not_mem_nil⟩
    · simp only [CallPc.isAccepted, CallPc.isDeciding]
    · -- the count the call has found is the one it has made
      by_cases hle : q.depth + 1 ≤ kWorkerQueueLimit
      · exact Or.inr hle
      · refine Or.inl ?_
        simp only [CallPc.isAccepted, CallPc.isPromised, if_neg hle]
        exact Nat.le_refl _
  | counted depth =>
    dsimp only
    split
    · next hlt =>
      refine ⟨hq.moveCall .refused q.depth q.pool.tasks hpc rfl (Or.inl ?_) hq.queued, List.not_mem_nil⟩
      simp only [CallPc.isAccepted, CallPc.isPromised, if_neg (Nat.not_le.mpr hlt)]
      exact Nat.le_refl _
    · next hlt =>
      refine ⟨hq.moveCall .accepted q.depth q.pool.tasks hpc rfl (Or.inl ?_) hq.queued, List.not_mem_nil⟩
      simp only [CallPc.isAccepted, CallPc.isPromised, if_pos (Nat.not_lt.mp hlt)]
      omega
  | refused =>
    have hpos := hq.depth_pos_of_call (i := i) (by rw [hpc]; rfl)
    dsimp only
    rw [fetchSub_pos hpos]
    refine ⟨hq.moveCall .idle (q.depth - 1) q.pool.tasks hpc ?_ (Or.inl (Nat.le_refl _)) hq.queued, by simp⟩
    simp only [CallPc.isAccepted, CallPc.isDeciding]
    omega
  | accepted =>
    dsimp only
    refine ⟨hq.moveCall .idle q.depth (q.pool.tasks ++ [Wrapped.unfinished]) hpc ?_ (Or.inl ?_)
      fun t ht => ?_, by simp⟩
    · simp only [CallPc.isAccepted, CallPc.isDeciding, List.length_append, List.length_singleton]
      omega
    · simp only [CallPc.isAccepted, CallPc.isPromised, List.length_append, List.length_singleton]
      omega
    · rcases List.mem_append.mp ht with ht | ht
      · exact hq.queued t ht
      · exact List.mem_singleton.mp ht

theorem Admitted.poolStep {q q' : Queue ι threads} (hq : Admitted q) {a : Action threads}
    {es : List Event} (h : poolStep q a = some (q', es)) : Admitted q' ∧ .underflow ∉ es := by
  cases a with
  | finish w =>
    simp only [Admission.poolStep] at h
    split at h
    · next hpc =>
      simp only [Option.some.injEq, Prod.mk.injEq] at h
      obtain ⟨rfl, rfl⟩ := h
      refine ⟨hq.moveWorker (.running .finished) q.depth q.pool.tasks hpc rfl ?_ hq.queued fun t ht => ?_,
        List.not_mem_nil⟩
      · simp only [hasUnfinished]
        omega
      · exact absurd ht (by simp)
    · exact absurd h (by simp)
  | fetchSub w =>
    simp only [Admission.poolStep] at h
    split at h
    · next hpc =>
      have hpos := hq.depth_pos_of_worker (w := w) (by rw [hpc]; rfl)
      rw [fetchSub_pos hpos] at h
      simp only [Option.some.injEq, Prod.mk.injEq] at h
      obtain ⟨rfl, rfl⟩ := h
      refine ⟨hq.moveWorker (.running .counted) (q.depth - 1) q.pool.tasks hpc ?_ (Nat.le_refl _) hq.queued
        fun t ht => ?_, List.not_mem_nil⟩
      · simp only [hasUnfinished, hasFinished]
        omega
      · exact absurd ht (by simp)
    · exact absurd h (by simp)
  | worker w =>
    cases hpc : q.pool.workers w with
    | waiting =>
      simp only [Admission.poolStep, ThreadPool.workerStep, hpc] at h
      cases htasks : q.pool.tasks with
      | nil =>
        rw [htasks] at h
        cases hstop : q.pool.stop with
        | true =>
          simp only [hstop, if_true, Option.some.injEq, Prod.mk.injEq] at h
          obtain ⟨rfl, rfl⟩ := h
          exact ⟨hq.moveWorker .left q.depth q.pool.tasks hpc rfl (Nat.le_refl _) hq.queued
            fun t ht => absurd ht (by simp), List.not_mem_nil⟩
        | false =>
          simp only [hstop, Bool.false_eq_true, if_false] at h
          exact absurd h (by simp)
      | cons task rest =>
        rw [htasks] at h
        simp only [Option.some.injEq, Prod.mk.injEq] at h
        obtain ⟨rfl, rfl⟩ := h
        have hqueued := hq.queued
        rw [htasks] at hqueued
        refine ⟨hq.moveWorker (.fetched task) q.depth rest hpc ?_ ?_
          (fun t ht => hqueued t (List.mem_cons_of_mem _ ht)) fun t ht => ?_, List.not_mem_nil⟩
        · rw [htasks, List.length_cons]
          simp only [hasUnfinished, hasFinished]
          omega
        · rw [htasks, List.length_cons]
          simp only [hasUnfinished]
          omega
        · obtain rfl := ThreadPool.WorkerPc.fetched.inj ht
          exact hqueued task List.mem_cons_self
    | fetched task =>
      obtain rfl := hq.fetched w task hpc
      simp only [Admission.poolStep, ThreadPool.workerStep, hpc, Option.some.injEq, Prod.mk.injEq] at h
      obtain ⟨rfl, rfl⟩ := h
      exact ⟨hq.moveWorker (.running .unfinished) q.depth q.pool.tasks hpc rfl (Nat.le_refl _) hq.queued
        fun t ht => absurd ht (by simp), List.not_mem_nil⟩
    | running task =>
      cases task with
      | unfinished =>
        simp only [Admission.poolStep, hpc] at h
        exact absurd h (by simp)
      | finished =>
        simp only [Admission.poolStep, hpc] at h
        exact absurd h (by simp)
      | counted =>
        simp only [Admission.poolStep, ThreadPool.workerStep, hpc, Option.some.injEq, Prod.mk.injEq] at h
        obtain ⟨rfl, rfl⟩ := h
        exact ⟨hq.moveWorker .waiting q.depth q.pool.tasks hpc rfl (Nat.le_refl _) hq.queued
          fun t ht => absurd ht (by simp), List.not_mem_nil⟩
    | left =>
      simp only [Admission.poolStep, ThreadPool.workerStep, hpc] at h
      exact absurd h (by simp)

end

/-! ## 4. Runs -/

section

variable {ι : Type} [Fintype ι] [DecidableEq ι] {threads : Kind → Nat}

omit [DecidableEq ι] in
theorem admitted_setQueue {s : State ι threads} (hs : ∀ k, Admitted (s k)) {k : Kind}
    {q : Queue ι (threads k)} (hq : Admitted q) : ∀ j, Admitted (setQueue s k q j) := by
  intro j
  unfold setQueue
  by_cases hj : j = k
  · subst hj
    rw [Function.update_self]
    exact hq
  · rw [Function.update_of_ne hj]
    exact hs j

theorem admitted_step {s s' : State ι threads} (hs : ∀ k, Admitted (s k)) {l : Label ι threads}
    {es : List Event} (h : step s l = some (s', es)) : (∀ k, Admitted (s' k)) ∧ .underflow ∉ es := by
  cases l with
  | enqueueDbTask i =>
    simp only [step, enqueueDbTask, Option.some.injEq, Prod.mk.injEq] at h
    obtain ⟨rfl, rfl⟩ := h
    obtain ⟨hq, hes⟩ := (hs .db).enqueueTask i
    exact ⟨admitted_setQueue hs hq, hes⟩
  | enqueueRedisTask i =>
    simp only [step, enqueueRedisTask, Option.some.injEq, Prod.mk.injEq] at h
    obtain ⟨rfl, rfl⟩ := h
    obtain ⟨hq, hes⟩ := (hs .redis).enqueueTask i
    exact ⟨admitted_setQueue hs hq, hes⟩
  | pool k a =>
    simp only [step] at h
    split at h
    · exact absurd h (by simp)
    · next q es' hpool =>
      simp only [Option.some.injEq, Prod.mk.injEq] at h
      obtain ⟨rfl, rfl⟩ := h
      obtain ⟨hq, hes⟩ := (hs k).poolStep hpool
      exact ⟨admitted_setQueue hs hq, hes⟩

/-- **Admission control is exact**: in every state reached no more tasks than the limit are accepted
    and not finished, the count is these, those who have not made up their mind and those who
    have not been counted out, and no `fetch_sub` has found 0. -/
theorem admission_exact {ls : List (Label ι threads)} {s : State ι threads} {τ : List Event}
    (hrun : Machine.run step (fun _ => {}) ls = some (s, τ)) :
    (∀ k, (s k).unfinished ≤ kWorkerQueueLimit ∧
      (s k).depth = (s k).unfinished + (s k).deciding + (s k).finishing) ∧ .underflow ∉ τ := by
  have hinv := Machine.run_inv (fun (s : State ι threads) τ => (∀ k, Admitted (s k)) ∧ .underflow ∉ τ)
    (fun {s τ l s' es} hi hs => by
      obtain ⟨hs', hes⟩ := admitted_step hi.1 hs
      exact ⟨hs', fun h => (List.mem_append.mp h).elim hi.2 hes⟩) (τ := [])
    ⟨fun k => admitted_start, List.not_mem_nil⟩ hrun
  obtain ⟨hs, hτ⟩ := hinv
  refine ⟨fun k => ⟨?_, (hs k).depth_eq⟩, hτ⟩
  exact Nat.le_trans (Nat.le_add_right ..) (hs k).limit

end

/-- One caller and one worker: a task from its `enqueueDbTask` to its `fetch_sub`. -/
def oneTask : List (Label Unit fun _ => 1) :=
  [.enqueueDbTask (), .enqueueDbTask (), .enqueueDbTask (), .pool .db (.worker ⟨0, Nat.one_pos⟩),
    .pool .db (.worker ⟨0, Nat.one_pos⟩), .enqueueRedisTask (), .pool .db (.finish ⟨0, Nat.one_pos⟩),
    .pool .db (.fetchSub ⟨0, Nat.one_pos⟩)]

theorem admission_exact_one : ∃ s τ, Machine.run step (fun _ => {}) oneTask = some (s, τ) ∧
    ∀ k, (s k).depth = (s k).unfinished + (s k).deciding + (s k).finishing := by
  have hsome : (Machine.run step (fun _ => {}) oneTask).isSome = true := by decide
  obtain ⟨⟨s, τ⟩, hrun⟩ := Option.isSome_iff_exists.mp hsome
  exact ⟨s, τ, hrun, fun k => ((admission_exact hrun).1 k).2⟩

end Admission
end EpollChat
