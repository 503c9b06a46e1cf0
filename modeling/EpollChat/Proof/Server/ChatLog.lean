import EpollChat.Server.ChatLog

/-!
# No chat log is lost on the way to the database

Two invariants, one on top of the other. `Locked`: the lock is held by the thread whose
place says so. `Kept`: what has been flushed, the batch in the making and the two queues are
the accepted logs in order, `m_chatLogQueueDepth` is off by exactly the `fetch_add` or
`fetch_sub` somebody still owes, and the active queue holds what was accepted since the last
locked check. The last point makes the end of `chatLogFlushLoop` easy: nothing accepted before
its last check is in the active queue any more.
-/

namespace EpollChat
namespace ChatLog

open Lib Machine

variable {ι : Type}

/-! ## 1. Reading a trace -/

/-- The accepted logs, in order of acceptance. -/
def acceptedLogs (τ : List Event) : List PendingChatLog :=
  τ.filterMap fun
    | .accepted log => some log
    | _ => none

/-- The arguments of the `flushChatLogsBatch` calls. -/
def batches (τ : List Event) : List (List PendingChatLog) :=
  τ.filterMap fun
    | .flushed batch => some batch
    | _ => none

/-- The logs accepted since the last locked check. -/
def recentLogs (τ : List Event) : List PendingChatLog :=
  τ.foldl (fun logs e =>
    match e with
    | .accepted log => logs ++ [log]
    | .lockedCheck => []
    | _ => logs) []

@[simp] theorem acceptedLogs_append (τ τ' : List Event) :
    acceptedLogs (τ ++ τ') = acceptedLogs τ ++ acceptedLogs τ' := List.filterMap_append

@[simp] theorem batches_append (τ τ' : List Event) :
    batches (τ ++ τ') = batches τ ++ batches τ' := List.filterMap_append

theorem recentLogs_concat (τ : List Event) (e : Event) :
    recentLogs (τ ++ [e]) =
      match e with
      | .accepted log => recentLogs τ ++ [log]
      | .lockedCheck => []
      | _ => recentLogs τ := by
  rw [recentLogs, List.foldl_append]
  rfl

/-- Where the last locked check stands, the trace can be cut. -/
theorem exists_last_check {τ : List Event} (h : .lockedCheck ∈ τ) :
    ∃ τ₁ τ₂, τ = τ₁ ++ .lockedCheck :: τ₂ ∧ .lockedCheck ∉ τ₂ ∧
      acceptedLogs τ = acceptedLogs τ₁ ++ recentLogs τ := by
  induction τ using List.reverseRecOn with
  | nil => exact absurd h (by simp)
  | append_singleton τ e ih =>
    by_cases he : e = .lockedCheck
    · subst he
      refine ⟨τ, [], rfl, by simp, ?_⟩
      rw [acceptedLogs_append, recentLogs_concat]
      rfl
    · obtain ⟨τ₁, τ₂, rfl, hnot, hlogs⟩ := ih (by simpa [Ne.symm he] using h)
      refine ⟨τ₁, τ₂ ++ [e], by simp, by simpa [hnot] using Ne.symm he, ?_⟩
      rw [acceptedLogs_append, hlogs, recentLogs_concat, List.append_assoc]
      cases e with
      | accepted log => rfl
      | lockedCheck => exact absurd rfl he
      | dropped log => simp [acceptedLogs]
      | flushed batch => simp [acceptedLogs]

/-! ## 2. The moves -/

section
variable [DecidableEq ι]

/-- What a step of `enqueueChatLog` in thread `t` can do. -/
inductive CallerMove (s : State ι) (t : ι) : State ι → List Event → Prop where
  | lock {log} (hpc : s.callers t = .locking log) (hfree : s.mutex = none) :
      CallerMove s t (setCaller { s with mutex := some (.caller t) } t (.checking log)) []
  | drop {log} (hpc : s.callers t = .checking log)
      (hfull : kChatLogQueueLimit ≤ s.active.length + s.flush.length) :
      CallerMove s t (setCaller s t .leaving) [.dropped log]
  | pass {log} (hpc : s.callers t = .checking log)
      (hroom : s.active.length + s.flush.length < kChatLogQueueLimit) :
      CallerMove s t (setCaller s t (.pushing log)) []
  | push {log} (hpc : s.callers t = .pushing log) :
      CallerMove s t (setCaller { s with active := s.active ++ [log] } t .counting) [.accepted log]
  | count (hpc : s.callers t = .counting) :
      CallerMove s t (setCaller { s with queueDepth := s.queueDepth + 1 } t .leaving) []
  | leave (hpc : s.callers t = .leaving) :
      CallerMove s t (setCaller { s with mutex := none } t .outside) []

theorem callerMove {s s' : State ι} {t : ι} {es : List Event} (h : callerStep s t = some (s', es)) :
    CallerMove s t s' es := by
  cases hpc : s.callers t with
  | outside => simp [callerStep, hpc] at h
  | locking log =>
    simp only [callerStep, hpc] at h
    split at h
    · next hfree =>
      simp only [Option.some.injEq, Prod.mk.injEq] at h
      obtain ⟨rfl, rfl⟩ := h
      exact .lock hpc hfree
    · exact absurd h (by simp)
  | checking log =>
    simp only [callerStep, hpc] at h
    split at h
    · next hfull =>
      simp only [Option.some.injEq, Prod.mk.injEq] at h
      obtain ⟨rfl, rfl⟩ := h
      exact .drop hpc hfull
    · next hroom =>
      simp only [Option.some.injEq, Prod.mk.injEq] at h
      obtain ⟨rfl, rfl⟩ := h
      exact .pass hpc (Nat.not_le.mp hroom)
  | pushing log =>
    simp only [callerStep, hpc, Option.some.injEq, Prod.mk.injEq] at h
    obtain ⟨rfl, rfl⟩ := h
    exact .push hpc
  | counting =>
    simp only [callerStep, hpc, Option.some.injEq, Prod.mk.injEq] at h
    obtain ⟨rfl, rfl⟩ := h
    exact .count hpc
  | leaving =>
    simp only [callerStep, hpc, Option.some.injEq, Prod.mk.injEq] at h
    obtain ⟨rfl, rfl⟩ := h
    exact .leave hpc

end

/-- What a step of `chatLogFlushLoop` can do. -/
inductive FlusherMove (s : State ι) : State ι → List Event → Prop where
  | loop (hpc : s.flusher = .loop) :
      FlusherMove s { s with flusher := if s.stop then .finalLocking else .locking } []
  | lock (hpc : s.flusher = .locking) (hfree : s.mutex = none) :
      FlusherMove s { s with mutex := some .flusher, flusher := .waiting } []
  | ready (hpc : s.flusher = .waiting) (hready : s.stop ∨ s.active ≠ []) :
      FlusherMove s { s with flusher := .checking } []
  | wait (hpc : s.flusher = .waiting) (hwait : ¬ (s.stop ∨ s.active ≠ [])) :
      FlusherMove s { s with mutex := none, flusher := .blocked } []
  | checkStop (hpc : s.flusher = .checking) (hstop : s.stop) (hempty : s.active = []) :
      FlusherMove s { s with mutex := none, flusher := .finalLocking } [.lockedCheck]
  | checkSwap (hpc : s.flusher = .checking) (hfull : s.active ≠ []) :
      FlusherMove s { swapQueues s with mutex := none, flusher := .draining false } [.lockedCheck]
  | checkNone (hpc : s.flusher = .checking) (hempty : s.active = []) :
      FlusherMove s { s with mutex := none, flusher := .draining false } [.lockedCheck]
  | drained {last} (hpc : s.flusher = .draining last) (hempty : s.flush = []) :
      FlusherMove s { s with flusher := if last then .finalLocking else .loop } []
  | fill {last} (hpc : s.flusher = .draining last) (hfull : s.flush ≠ []) :
      FlusherMove s { s with flusher := .filling last (min kChatLogBatchSize s.flush.length) [] } []
  | flush {last batch} (hpc : s.flusher = .filling last 0 batch) :
      FlusherMove s { s with flusher := .draining last } [.flushed batch]
  | pop {last n batch log rest} (hpc : s.flusher = .filling last (n + 1) batch)
      (hflush : s.flush = log :: rest) :
      FlusherMove s { s with flush := rest, flusher := .counting last n (batch ++ [log]) } []
  | count {last n batch} (hpc : s.flusher = .counting last n batch) :
      FlusherMove s { s with queueDepth := s.queueDepth - 1, flusher := .filling last n batch } []
  | finalLock (hpc : s.flusher = .finalLocking) (hfree : s.mutex = none) :
      FlusherMove s { s with mutex := some .flusher, flusher := .finalChecking } []
  | finalSwap (hpc : s.flusher = .finalChecking) (hempty : s.flush = []) (hfull : s.active ≠ []) :
      FlusherMove s { swapQueues s with mutex := none, flusher := .finalTesting } [.lockedCheck]
  | finalNone (hpc : s.flusher = .finalChecking) (hskip : ¬ (s.flush = [] ∧ s.active ≠ [])) :
      FlusherMove s { s with mutex := none, flusher := .finalTesting } [.lockedCheck]
  | finalTest (hpc : s.flusher = .finalTesting) :
      FlusherMove s { s with flusher := if s.flush = [] then .returned else .draining true } []

theorem flusherMove {s s' : State ι} {es : List Event} (h : flusherStep s = some (s', es)) :
    FlusherMove s s' es := by
  cases hpc : s.flusher with
  | loop =>
    simp only [flusherStep, hpc, Option.some.injEq, Prod.mk.injEq] at h
    obtain ⟨rfl, rfl⟩ := h
    exact .loop hpc
  | locking =>
    simp only [flusherStep, hpc] at h
    split at h
    · next hfree =>
      simp only [Option.some.injEq, Prod.mk.injEq] at h
      obtain ⟨rfl, rfl⟩ := h
      exact .lock hpc hfree
    · exact absurd h (by simp)
  | waiting =>
    simp only [flusherStep, hpc] at h
    split at h
    · next hready =>
      simp only [Option.some.injEq, Prod.mk.injEq] at h
      obtain ⟨rfl, rfl⟩ := h
      exact .ready hpc hready
    · next hwait =>
      simp only [Option.some.injEq, Prod.mk.injEq] at h
      obtain ⟨rfl, rfl⟩ := h
      exact .wait hpc hwait
  | blocked => simp [flusherStep, hpc] at h
  | checking =>
    simp only [flusherStep, hpc] at h
    split at h
    · next hstop =>
      simp only [Option.some.injEq, Prod.mk.injEq] at h
      obtain ⟨rfl, rfl⟩ := h
      exact .checkStop hpc hstop.1 hstop.2
    · split at h
      · next hfull =>
        simp only [Option.some.injEq, Prod.mk.injEq] at h
        obtain ⟨rfl, rfl⟩ := h
        exact .checkSwap hpc hfull
      · next hempty =>
        simp only [Option.some.injEq, Prod.mk.injEq] at h
        obtain ⟨rfl, rfl⟩ := h
        exact .checkNone hpc (not_not.mp hempty)
  | draining last =>
    simp only [flusherStep, hpc] at h
    split at h
    · next hempty =>
      simp only [Option.some.injEq, Prod.mk.injEq] at h
      obtain ⟨rfl, rfl⟩ := h
      exact .drained hpc hempty
    · next hfull =>
      simp only [Option.some.injEq, Prod.mk.injEq] at h
      obtain ⟨rfl, rfl⟩ := h
      exact .fill hpc hfull
  | filling last n batch =>
    cases n with
    | zero =>
      simp only [flusherStep, hpc, Option.some.injEq, Prod.mk.injEq] at h
      obtain ⟨rfl, rfl⟩ := h
      exact .flush hpc
    | succ n =>
      simp only [flusherStep, hpc] at h
      split at h
      · exact absurd h (by simp)
      · next hflush =>
        simp only [Option.some.injEq, Prod.mk.injEq] at h
        obtain ⟨rfl, rfl⟩ := h
        exact .pop hpc hflush
  | counting last n batch =>
    simp only [flusherStep, hpc, Option.some.injEq, Prod.mk.injEq] at h
    obtain ⟨rfl, rfl⟩ := h
    exact .count hpc
  | finalLocking =>
    simp only [flusherStep, hpc] at h
    split at h
    · next hfree =>
      simp only [Option.some.injEq, Prod.mk.injEq] at h
      obtain ⟨rfl, rfl⟩ := h
      exact .finalLock hpc hfree
    · exact absurd h (by simp)
  | finalChecking =>
    simp only [flusherStep, hpc] at h
    split at h
    · next hswap =>
      simp only [Option.some.injEq, Prod.mk.injEq] at h
      obtain ⟨rfl, rfl⟩ := h
      exact .finalSwap hpc hswap.1 hswap.2
    · next hskip =>
      simp only [Option.some.injEq, Prod.mk.injEq] at h
      obtain ⟨rfl, rfl⟩ := h
      exact .finalNone hpc hskip
  | finalTesting =>
    simp only [flusherStep, hpc, Option.some.injEq, Prod.mk.injEq] at h
    obtain ⟨rfl, rfl⟩ := h
    exact .finalTest hpc
  | returned => simp [flusherStep, hpc] at h

/-! ## 3. Who holds the lock -/

def CallerPc.holds : CallerPc → Bool
  | .outside | .locking _ => false
  | _ => true

def FlusherPc.holds : FlusherPc → Bool
  | .waiting | .checking | .finalChecking => true
  | _ => false

structure Locked (s : State ι) : Prop where
  callers : ∀ t, (s.callers t).holds = true ↔ s.mutex = some (.caller t)
  flusher : s.flusher.holds = true ↔ s.mutex = some .flusher

section
variable [DecidableEq ι]

/-- A caller that keeps the lock, or goes on without it. -/
theorem Locked.caller {s s' : State ι} (hi : Locked s) {t : ι} {pc : CallerPc}
    (hpc : pc.holds = (s.callers t).holds)
    (hcallers : s'.callers = Function.update s.callers t pc) (hmutex : s'.mutex = s.mutex)
    (hflusher : s'.flusher = s.flusher) : Locked s' := by
  refine ⟨fun u => ?_, by rw [hflusher, hmutex]; exact hi.flusher⟩
  rw [hcallers, hmutex]
  by_cases hu : u = t
  · subst hu
    rw [Function.update_self, hpc]
    exact hi.callers u
  · rw [Function.update_of_ne hu]
    exact hi.callers u

/-- A caller that takes the lock or gives it back. -/
theorem Locked.caller_lock {s s' : State ι} (hi : Locked s) {t : ι} {pc : CallerPc}
    (hother : ∀ o, o ≠ .caller t → s.mutex ≠ some o)
    (hcallers : s'.callers = Function.update s.callers t pc)
    (hmutex : s'.mutex = if pc.holds then some (.caller t) else none)
    (hflusher : s'.flusher = s.flusher) : Locked s' := by
  have hf : s.flusher.holds ≠ true := fun h => hother .flusher (by simp) (hi.flusher.mp h)
  refine ⟨fun u => ?_, ?_⟩
  · rw [hcallers, hmutex]
    by_cases hu : u = t
    · subst hu
      rw [Function.update_self]
      cases pc.holds <;> simp
    · have hu' : (s.callers u).holds ≠ true :=
        fun h => hother (.caller u) (by simpa using hu) ((hi.callers u).mp h)
      rw [Function.update_of_ne hu]
      cases pc.holds <;> simp [hu', Ne.symm hu]
  · rw [hflusher, hmutex]
    cases pc.holds <;> simp [hf]

theorem Locked.callerStep {s s' : State ι} {t : ι} {es : List Event} (hi : Locked s)
    (h : callerStep s t = some (s', es)) : Locked s' := by
  have hown : (s.callers t).holds = true → ∀ o, o ≠ Owner.caller t → s.mutex ≠ some o := by
    intro hh o ho hm
    rw [(hi.callers t).mp hh, Option.some.injEq] at hm
    exact ho hm.symm
  cases callerMove h with
  | lock hpc hfree =>
    exact hi.caller_lock (fun o _ hm => by rw [hfree] at hm; exact absurd hm (by simp)) rfl rfl rfl
  | drop hpc _ => exact hi.caller (by rw [hpc]; rfl) rfl rfl rfl
  | pass hpc _ => exact hi.caller (by rw [hpc]; rfl) rfl rfl rfl
  | push hpc => exact hi.caller (by rw [hpc]; rfl) rfl rfl rfl
  | count hpc => exact hi.caller (by rw [hpc]; rfl) rfl rfl rfl
  | leave hpc => exact hi.caller_lock (hown (by rw [hpc]; rfl)) rfl rfl rfl

omit [DecidableEq ι] in
theorem Locked.flusher_keep {s s' : State ι} (hi : Locked s) (hcallers : s'.callers = s.callers)
    (hmutex : s'.mutex = s.mutex) (hholds : s'.flusher.holds = s.flusher.holds) : Locked s' := by
  refine ⟨fun t => ?_, by rw [hholds, hmutex]; exact hi.flusher⟩
  rw [hcallers, hmutex]
  exact hi.callers t

omit [DecidableEq ι] in
/-- The flush thread takes the lock or gives it back. -/
theorem Locked.flusher_lock {s s' : State ι} (hi : Locked s) (hcallers : s'.callers = s.callers)
    (hown : s.mutex = none ∨ s.mutex = some .flusher)
    (hmutex : s'.mutex = if s'.flusher.holds then some .flusher else none) : Locked s' := by
  refine ⟨fun t => ?_, by rw [hmutex]; cases s'.flusher.holds <;> simp⟩
  have ht : (s.callers t).holds ≠ true := by
    intro h
    have hm := (hi.callers t).mp h
    rcases hown with h' | h' <;> rw [h'] at hm <;> exact absurd hm (by simp)
  rw [hcallers, hmutex]
  cases s'.flusher.holds <;> simp [ht]

omit [DecidableEq ι] in
theorem Locked.flusherStep {s s' : State ι} {es : List Event} (hi : Locked s)
    (h : flusherStep s = some (s', es)) : Locked s' := by
  have hown : s.flusher.holds = true → s.mutex = none ∨ s.mutex = some .flusher :=
    fun hh => .inr (hi.flusher.mp hh)
  cases flusherMove h with
  | loop hpc =>
    refine hi.flusher_keep rfl rfl ?_
    rw [hpc]
    cases s.stop <;> rfl
  | lock hpc hfree => exact hi.flusher_lock rfl (.inl hfree) rfl
  | ready hpc _ => exact hi.flusher_keep rfl rfl (by rw [hpc]; rfl)
  | wait hpc _ => exact hi.flusher_lock rfl (hown (by rw [hpc]; rfl)) rfl
  | checkStop hpc _ _ => exact hi.flusher_lock rfl (hown (by rw [hpc]; rfl)) rfl
  | checkSwap hpc _ => exact hi.flusher_lock rfl (hown (by rw [hpc]; rfl)) rfl
  | checkNone hpc _ => exact hi.flusher_lock rfl (hown (by rw [hpc]; rfl)) rfl
  | @drained last hpc _ =>
    refine hi.flusher_keep rfl rfl ?_
    rw [hpc]
    cases last <;> rfl
  | fill hpc _ => exact hi.flusher_keep rfl rfl (by rw [hpc]; rfl)
  | flush hpc => exact hi.flusher_keep rfl rfl (by rw [hpc]; rfl)
  | pop hpc _ => exact hi.flusher_keep rfl rfl (by rw [hpc]; rfl)
  | count hpc => exact hi.flusher_keep rfl rfl (by rw [hpc]; rfl)
  | finalLock hpc hfree => exact hi.flusher_lock rfl (.inl hfree) rfl
  | finalSwap hpc _ _ => exact hi.flusher_lock rfl (hown (by rw [hpc]; rfl)) rfl
  | finalNone hpc _ => exact hi.flusher_lock rfl (hown (by rw [hpc]; rfl)) rfl
  | finalTest hpc =>
    refine hi.flusher_keep rfl rfl ?_
    rw [hpc]
    by_cases hf : s.flush = [] <;> simp [hf, FlusherPc.holds]

omit [DecidableEq ι] in
/-- While the flush thread has the lock, no caller is between the check and the end. -/
theorem Locked.caller_out {s : State ι} (hi : Locked s) (h : s.flusher.holds = true) (t : ι) :
    (s.callers t).holds = false := by
  by_contra hc
  have hm := (hi.callers t).mp (by simpa using hc)
  rw [hi.flusher.mp h] at hm
  exact absurd hm (by simp)

omit [DecidableEq ι] in
theorem Locked.caller_unique {s : State ι} (hi : Locked s) {t u : ι}
    (ht : (s.callers t).holds = true) (hu : (s.callers u).holds = true) : u = t := by
  have hm := (hi.callers u).mp hu
  rw [(hi.callers t).mp ht] at hm
  simpa using hm.symm

/-! ## 4. What is in the queues -/

/-- The batch being assembled. -/
def FlusherPc.batch : FlusherPc → List PendingChatLog
  | .filling _ _ batch | .counting _ _ batch => batch
  | _ => []

/-- The `fetch_sub` the flush thread owes. -/
def FlusherPc.toSub : FlusherPc → Nat
  | .counting .. => 1
  | _ => 0

/-- Where `m_chatLogFlushQueue` may hold logs. -/
def FlusherPc.drains : FlusherPc → Bool
  | .draining _ | .filling .. | .counting .. | .finalTesting => true
  | _ => false

/-- The `for` loop finds as many logs as it takes, and its batch has the right size. -/
def FillOk (flush : List PendingChatLog) : FlusherPc → Prop
  | .filling _ n batch | .counting _ n batch =>
      n ≤ flush.length ∧ 1 ≤ batch.length + n ∧ batch.length + n ≤ kChatLogBatchSize
  | _ => True

structure Kept (s : State ι) (τ : List Event) : Prop where
  order : (batches τ).flatten ++ s.flusher.batch ++ s.flush ++ s.active = acceptedLogs τ
  recent : s.active = recentLogs τ
  drained : s.flusher.drains = false → s.flush = []
  fill : FillOk s.flush s.flusher
  sizes : ∀ b ∈ batches τ, 1 ≤ b.length ∧ b.length ≤ kChatLogBatchSize
  checked : s.flusher = .finalTesting ∨ s.flusher = .returned → .lockedCheck ∈ τ
  depth : (∀ t, s.callers t ≠ .counting) →
    s.queueDepth.toNat = s.flush.length + s.active.length + s.flusher.toSub
  owed : ∀ t, s.callers t = .counting →
    s.queueDepth.toNat + 1 = s.flush.length + s.active.length + s.flusher.toSub ∧
      0 < s.active.length
  limit : s.flush.length + s.active.length ≤ kChatLogQueueLimit
  room : ∀ t log, s.callers t = .pushing log →
    s.flush.length + s.active.length < kChatLogQueueLimit

omit [DecidableEq ι] in
/-- The counter is never wrong by more than one, and never too small for a `fetch_sub`. -/
theorem Kept.toSub_le {s : State ι} {τ : List Event} (hi : Kept s τ) :
    s.flush.length + s.flusher.toSub ≤ s.queueDepth.toNat := by
  by_cases h : ∃ t, s.callers t = .counting
  · obtain ⟨t, ht⟩ := h
    obtain ⟨hd, ha⟩ := hi.owed t ht
    omega
  · have hd := hi.depth (fun t ht => h ⟨t, ht⟩)
    omega

/-- A caller that neither pushes nor counts. -/
theorem Kept.caller {s s' : State ι} {τ es : List Event} (hi : Kept s τ) {t : ι} {pc : CallerPc}
    (hs : s' = { s with mutex := s'.mutex, callers := Function.update s.callers t pc })
    (hes : es = [] ∨ ∃ log, es = [.dropped log]) (hold : s.callers t ≠ .counting)
    (hnew : pc ≠ .counting)
    (hroom : ∀ log, pc = .pushing log → s.flush.length + s.active.length < kChatLogQueueLimit) :
    Kept s' (τ ++ es) := by
  have hacc : acceptedLogs (τ ++ es) = acceptedLogs τ := by
    rcases hes with rfl | ⟨log, rfl⟩ <;> simp [acceptedLogs]
  have hbat : batches (τ ++ es) = batches τ := by
    rcases hes with rfl | ⟨log, rfl⟩ <;> simp [batches]
  have hrec : recentLogs (τ ++ es) = recentLogs τ := by
    rcases hes with rfl | ⟨log, rfl⟩
    · rw [List.append_nil]
    · rw [recentLogs_concat]
  have hcallers : s'.callers = Function.update s.callers t pc := by rw [hs]
  have hat : ∀ u, u ≠ t → s'.callers u = s.callers u := by
    intro u hu
    rw [hcallers, Function.update_of_ne hu]
  have htt : s'.callers t = pc := by rw [hcallers, Function.update_self]
  have hf : s'.flush = s.flush := by rw [hs]
  have ha : s'.active = s.active := by rw [hs]
  have hd : s'.queueDepth = s.queueDepth := by rw [hs]
  have hpc : s'.flusher = s.flusher := by rw [hs]
  refine ⟨?_, ?_, ?_, ?_, ?_, ?_, ?_, ?_, ?_, ?_⟩
  · rw [hacc, hbat, hpc, hf, ha]; exact hi.order
  · rw [hrec, ha]; exact hi.recent
  · rw [hpc, hf]; exact hi.drained
  · rw [hpc, hf]; exact hi.fill
  · rw [hbat]; exact hi.sizes
  · rw [hpc]
    intro h
    exact List.mem_append.mpr (.inl (hi.checked h))
  · rw [hf, ha, hd, hpc]
    intro h
    refine hi.depth fun u hu => ?_
    by_cases hut : u = t
    · rw [hut] at hu; exact hold hu
    · rw [← hat u hut] at hu; exact h u hu
  · rw [hf, ha, hd, hpc]
    intro u hu
    by_cases hut : u = t
    · rw [hut, htt] at hu; exact absurd hu hnew
    · rw [hat u hut] at hu; exact hi.owed u hu
  · rw [hf, ha]; exact hi.limit
  · rw [hf, ha]
    intro u log hu
    by_cases hut : u = t
    · rw [hut, htt] at hu; exact hroom log hu
    · rw [hat u hut] at hu; exact hi.room u log hu

theorem Kept.push {s : State ι} {τ : List Event} (hl : Locked s) (hi : Kept s τ) {t : ι}
    {log : PendingChatLog} (ht : s.callers t = .pushing log) :
    Kept (setCaller { s with active := s.active ++ [log] } t .counting) (τ ++ [.accepted log]) := by
  have holds : (s.callers t).holds = true := by rw [ht]; rfl
  have hnone : ∀ u, s.callers u ≠ .counting := by
    intro u hu
    have := hl.caller_unique holds (u := u) (by rw [hu]; rfl)
    rw [this, ht] at hu
    exact absurd hu (by simp)
  have hd := hi.depth hnone
  have hroom := hi.room t log ht
  have hlen : (s.active ++ [log]).length = s.active.length + 1 := by simp
  refine ⟨?_, ?_, hi.drained, hi.fill, ?_, ?_, ?_, ?_, ?_, ?_⟩
  · show (batches (τ ++ [.accepted log])).flatten ++ s.flusher.batch ++ s.flush ++ (s.active ++ [log]) = _
    rw [acceptedLogs_append, ← hi.order]
    simp [batches, acceptedLogs]
  · show s.active ++ [log] = _
    rw [recentLogs_concat, hi.recent]
  · rw [batches_append]
    simpa [batches] using hi.sizes
  · intro h
    exact List.mem_append.mpr (.inl (hi.checked h))
  · intro h
    exact (h t (Function.update_self ..)).elim
  · intro u _
    show s.queueDepth.toNat + 1 = s.flush.length + (s.active ++ [log]).length + _ ∧
      0 < (s.active ++ [log]).length
    rw [hlen]
    refine ⟨?_, by omega⟩
    show _ = _ + s.flusher.toSub
    omega
  · show s.flush.length + (s.active ++ [log]).length ≤ _
    omega
  · intro u log' hu
    have hu : Function.update s.callers t .counting u = .pushing log' := hu
    by_cases hut : u = t
    · rw [hut, Function.update_self] at hu
      exact absurd hu (by simp)
    · rw [Function.update_of_ne hut] at hu
      exact absurd (hl.caller_unique holds (by rw [hu]; rfl)) hut

theorem Kept.count {s : State ι} {τ : List Event} (hl : Locked s) (hi : Kept s τ) {t : ι}
    (ht : s.callers t = .counting) :
    Kept (setCaller { s with queueDepth := s.queueDepth + 1 } t .leaving) τ := by
  obtain ⟨howed, -⟩ := hi.owed t ht
  have hlimit : s.flush.length + s.active.length ≤ 200000 := hi.limit
  have hsub : s.flusher.toSub ≤ 1 := by cases s.flusher <;> simp [FlusherPc.toSub]
  have hnat : (s.queueDepth + 1).toNat = s.queueDepth.toNat + 1 := by
    rw [UInt64.toNat_add]
    refine Nat.mod_eq_of_lt ?_
    show s.queueDepth.toNat + 1 < 2 ^ 64
    omega
  have hout : ∀ u pc, pc ≠ .leaving → pc.holds = true →
      Function.update s.callers t .leaving u ≠ pc := by
    intro u pc hpc hh hu
    by_cases hut : u = t
    · rw [hut, Function.update_self] at hu
      exact hpc hu.symm
    · rw [Function.update_of_ne hut] at hu
      exact hut (hl.caller_unique (by rw [ht]; rfl) (by rw [hu]; exact hh))
  refine ⟨hi.order, hi.recent, hi.drained, hi.fill, hi.sizes, hi.checked, ?_, ?_, hi.limit, ?_⟩
  · intro _
    show (s.queueDepth + 1).toNat = _
    rw [hnat]
    exact howed
  · intro u hu
    exact absurd hu (hout u _ (by simp) rfl)
  · intro u log hu
    exact absurd hu (hout u _ (by simp) rfl)

theorem Kept.callerStep {s s' : State ι} {τ es : List Event} {t : ι} (hl : Locked s) (hi : Kept s τ)
    (h : callerStep s t = some (s', es)) : Kept s' (τ ++ es) := by
  cases callerMove h with
  | lock hpc _ => exact hi.caller rfl (.inl rfl) (by simp [hpc]) (by simp) (by simp)
  | drop hpc _ => exact hi.caller rfl (.inr ⟨_, rfl⟩) (by simp [hpc]) (by simp) (by simp)
  | pass hpc hroom =>
    exact hi.caller rfl (.inl rfl) (by simp [hpc]) (by simp) (fun _ _ => by omega)
  | push hpc => exact hi.push hl hpc
  | count hpc =>
    rw [List.append_nil]
    exact hi.count hl hpc
  | leave hpc => exact hi.caller rfl (.inl rfl) (by simp [hpc]) (by simp) (by simp)

end

/-! ## 5. The flush thread -/

/-- The flush thread has nothing in hand while it has the lock. -/
theorem FlusherPc.quiet_of_holds {pc : FlusherPc} (h : pc.holds = true) :
    pc.drains = false ∧ pc.batch = [] ∧ pc.toSub = 0 := by
  cases pc with
  | waiting => exact ⟨rfl, rfl, rfl⟩
  | checking => exact ⟨rfl, rfl, rfl⟩
  | finalChecking => exact ⟨rfl, rfl, rfl⟩
  | _ => exact absurd h (by simp [FlusherPc.holds])

/-- The flush thread goes on and touches no queue. -/
theorem Kept.goOn {s s' : State ι} {τ : List Event} (hi : Kept s τ)
    (hs : s' = { s with mutex := s'.mutex, flusher := s'.flusher })
    (hbatch : s'.flusher.batch = s.flusher.batch) (hsub : s'.flusher.toSub = s.flusher.toSub)
    (hdrains : s'.flusher.drains = false → s.flush = []) (hfill : FillOk s.flush s'.flusher)
    (hchecked : s'.flusher = .finalTesting ∨ s'.flusher = .returned → .lockedCheck ∈ τ) :
    Kept s' τ := by
  have hcallers : s'.callers = s.callers := by rw [hs]
  have hf : s'.flush = s.flush := by rw [hs]
  have ha : s'.active = s.active := by rw [hs]
  have hd : s'.queueDepth = s.queueDepth := by rw [hs]
  refine ⟨?_, ?_, ?_, ?_, hi.sizes, hchecked, ?_, ?_, ?_, ?_⟩
  · rw [hbatch, hf, ha]; exact hi.order
  · rw [ha]; exact hi.recent
  · rw [hf]; exact hdrains
  · rw [hf]; exact hfill
  · rw [hcallers, hf, ha, hd, hsub]; exact hi.depth
  · rw [hcallers, hf, ha, hd, hsub]; exact hi.owed
  · rw [hf, ha]; exact hi.limit
  · rw [hcallers, hf, ha]; exact hi.room

/-- A locked check finds the flush queue empty and leaves the active queue empty, whether or
    not it swaps them. -/
theorem Kept.check {s s' : State ι} {τ : List Event} (hl : Locked s) (hi : Kept s τ)
    (hholds : s.flusher.holds = true) (hcallers : s'.callers = s.callers)
    (hd : s'.queueDepth = s.queueDepth) (hflush : s'.flush = s.active) (hactive : s'.active = [])
    (hdrains : s'.flusher.drains = false → s.active = []) (hbatch : s'.flusher.batch = [])
    (hsub : s'.flusher.toSub = 0) (hfill : FillOk s.active s'.flusher) :
    Kept s' (τ ++ [.lockedCheck]) := by
  obtain ⟨hq, hbatch', hsub'⟩ := FlusherPc.quiet_of_holds hholds
  have hdrained : s.flush = [] := hi.drained hq
  have hout : ∀ t pc, s.callers t = pc → pc.holds = true → False := by
    intro t pc ht hh
    have := hl.caller_out hholds t
    rw [ht, hh] at this
    exact absurd this (by simp)
  have hlimit := hi.limit
  refine ⟨?_, ?_, ?_, ?_, ?_, ?_, ?_, ?_, ?_, ?_⟩
  · have horder := hi.order
    rw [hdrained, hbatch', List.append_nil, List.append_nil] at horder
    rw [hbatch, hflush, hactive, acceptedLogs_append, batches_append, ← horder]
    simp [acceptedLogs, batches]
  · rw [hactive, recentLogs_concat]
  · rw [hflush]; exact hdrains
  · rw [hflush]; exact hfill
  · rw [batches_append]
    simpa [batches] using hi.sizes
  · intro _
    simp
  · intro _
    have := hi.depth (fun t ht => hout t _ ht rfl)
    rw [hd, hflush, hactive, hsub, this, hdrained, hsub', List.length_nil]
    omega
  · intro t ht
    rw [hcallers] at ht
    exact (hout t _ ht rfl).elim
  · rw [hflush, hactive, List.length_nil]
    omega
  · intro t log ht
    rw [hcallers] at ht
    exact (hout t _ ht rfl).elim

/-- One log goes from the flush queue into the batch. -/
theorem Kept.pop {s : State ι} {τ : List Event} (hi : Kept s τ) {last : Bool} {n : Nat}
    {batch rest : List PendingChatLog} {log : PendingChatLog}
    (hpc : s.flusher = .filling last (n + 1) batch) (hflush : s.flush = log :: rest) :
    Kept { s with flush := rest, flusher := .counting last n (batch ++ [log]) } τ := by
  have horder := hi.order
  have hfill := hi.fill
  have hlimit := hi.limit
  rw [hpc] at horder hfill
  obtain ⟨hn, h₁, h₂⟩ := hfill
  have hlen : s.flush.length = rest.length + 1 := by rw [hflush, List.length_cons]
  have hsub : s.flusher.toSub = 0 := by rw [hpc]; rfl
  refine ⟨?_, hi.recent, fun h => absurd h (by simp [FlusherPc.drains]), ?_, hi.sizes, ?_, ?_, ?_, ?_, ?_⟩
  · rw [hflush] at horder
    rw [← horder]
    simp [FlusherPc.batch]
  · refine ⟨?_, ?_, ?_⟩
    · show n ≤ rest.length
      omega
    · rw [List.length_append, List.length_singleton]; omega
    · rw [List.length_append, List.length_singleton]; omega
  · intro h
    rcases h with h | h <;> exact absurd h (by simp)
  · intro h
    have := hi.depth h
    show s.queueDepth.toNat = rest.length + s.active.length + 1
    omega
  · intro t ht
    have := hi.owed t ht
    refine ⟨?_, this.2⟩
    show s.queueDepth.toNat + 1 = rest.length + s.active.length + 1
    omega
  · show rest.length + s.active.length ≤ _
    omega
  · intro t log' ht
    have := hi.room t log' ht
    show rest.length + s.active.length < _
    omega

/-- The `fetch_sub` that goes with it. -/
theorem Kept.countDown {s : State ι} {τ : List Event} (hi : Kept s τ) {last : Bool} {n : Nat}
    {batch : List PendingChatLog} (hpc : s.flusher = .counting last n batch) :
    Kept { s with queueDepth := s.queueDepth - 1, flusher := .filling last n batch } τ := by
  have horder := hi.order
  have hfill := hi.fill
  rw [hpc] at horder hfill
  have hsub : s.flusher.toSub = 1 := by rw [hpc]; rfl
  have hle := hi.toSub_le
  have hnat : (s.queueDepth - 1).toNat = s.queueDepth.toNat - 1 := by
    refine UInt64.toNat_sub_of_le _ _ ?_
    rw [UInt64.le_iff_toNat_le]
    show 1 ≤ s.queueDepth.toNat
    omega
  refine ⟨horder, hi.recent, fun h => absurd h (by simp [FlusherPc.drains]), hfill, hi.sizes, ?_, ?_, ?_,
    hi.limit, hi.room⟩
  · intro h
    rcases h with h | h <;> exact absurd h (by simp)
  · intro h
    have := hi.depth h
    show (s.queueDepth - 1).toNat = s.flush.length + s.active.length + 0
    omega
  · intro t ht
    have := hi.owed t ht
    refine ⟨?_, this.2⟩
    show (s.queueDepth - 1).toNat + 1 = s.flush.length + s.active.length + 0
    omega

/-- A full batch is passed on. -/
theorem Kept.flush {s : State ι} {τ : List Event} (hi : Kept s τ) {last : Bool}
    {batch : List PendingChatLog} (hpc : s.flusher = .filling last 0 batch) :
    Kept { s with flusher := .draining last } (τ ++ [.flushed batch]) := by
  have horder := hi.order
  have hfill := hi.fill
  have hsub : s.flusher.toSub = 0 := by rw [hpc]; rfl
  have hdepth := hi.depth
  have howed := hi.owed
  rw [hpc] at horder hfill hdepth howed
  refine ⟨?_, ?_, fun h => absurd h (by simp [FlusherPc.drains]), trivial, ?_, ?_, hdepth, howed,
    hi.limit, hi.room⟩
  · rw [acceptedLogs_append, batches_append, ← horder]
    simp [acceptedLogs, batches, FlusherPc.batch]
  · rw [recentLogs_concat]
    exact hi.recent
  · intro b hb
    rw [batches_append, List.mem_append] at hb
    rcases hb with hb | hb
    · exact hi.sizes b hb
    · have hb : b = batch := by simpa [batches] using hb
      rw [hb]
      exact hfill.2
  · intro h
    rcases h with h | h <;> exact absurd h (by simp)

theorem Kept.flusherStep {s s' : State ι} {τ es : List Event} (hl : Locked s) (hi : Kept s τ)
    (h : flusherStep s = some (s', es)) : Kept s' (τ ++ es) := by
  have hdrained := hi.drained
  cases flusherMove h with
  | loop hpc =>
    rw [hpc] at hdrained
    rw [List.append_nil]
    by_cases hstop : s.stop = true
    · rw [if_pos hstop]
      exact hi.goOn rfl (by rw [hpc]; rfl) (by rw [hpc]; rfl) hdrained trivial (by simp)
    · rw [if_neg hstop]
      exact hi.goOn rfl (by rw [hpc]; rfl) (by rw [hpc]; rfl) hdrained trivial (by simp)
  | lock hpc _ =>
    rw [hpc] at hdrained
    rw [List.append_nil]
    exact hi.goOn rfl (by rw [hpc]; rfl) (by rw [hpc]; rfl) hdrained trivial (by simp)
  | ready hpc _ =>
    rw [hpc] at hdrained
    rw [List.append_nil]
    exact hi.goOn rfl (by rw [hpc]; rfl) (by rw [hpc]; rfl) hdrained trivial (by simp)
  | wait hpc _ =>
    rw [hpc] at hdrained
    rw [List.append_nil]
    exact hi.goOn rfl (by rw [hpc]; rfl) (by rw [hpc]; rfl) hdrained trivial (by simp)
  | checkStop hpc _ hempty =>
    rw [hpc] at hdrained
    exact hi.check hl (by rw [hpc]; rfl) rfl rfl (by rw [hempty]; exact hdrained rfl) hempty
      (fun _ => hempty) rfl rfl trivial
  | checkSwap hpc _ =>
    rw [hpc] at hdrained
    exact hi.check hl (by rw [hpc]; rfl) rfl rfl rfl (hdrained rfl)
      (fun h => absurd h (by simp [FlusherPc.drains])) rfl rfl trivial
  | checkNone hpc hempty =>
    rw [hpc] at hdrained
    exact hi.check hl (by rw [hpc]; rfl) rfl rfl (by rw [hempty]; exact hdrained rfl) hempty
      (fun _ => hempty) rfl rfl trivial
  | @drained last hpc hempty =>
    rw [List.append_nil]
    cases last with
    | false => exact hi.goOn rfl (by rw [hpc]; rfl) (by rw [hpc]; rfl) (fun _ => hempty) trivial (by simp)
    | true => exact hi.goOn rfl (by rw [hpc]; rfl) (by rw [hpc]; rfl) (fun _ => hempty) trivial (by simp)
  | fill hpc hfull =>
    rw [List.append_nil]
    have hpos : 0 < s.flush.length := List.length_pos_iff.mpr hfull
    refine hi.goOn rfl (by rw [hpc]; rfl) (by rw [hpc]; rfl)
      (fun h => absurd h (by simp [FlusherPc.drains])) ⟨Nat.min_le_right .., ?_, ?_⟩ (by simp)
    · rw [List.length_nil, kChatLogBatchSize]
      omega
    · rw [List.length_nil, Nat.zero_add]
      exact Nat.min_le_left ..
  | flush hpc => exact hi.flush hpc
  | pop hpc hflush =>
    rw [List.append_nil]
    exact hi.pop hpc hflush
  | count hpc =>
    rw [List.append_nil]
    exact hi.countDown hpc
  | finalLock hpc _ =>
    rw [hpc] at hdrained
    rw [List.append_nil]
    exact hi.goOn rfl (by rw [hpc]; rfl) (by rw [hpc]; rfl) hdrained trivial (by simp)
  | finalSwap hpc hempty _ =>
    exact hi.check hl (by rw [hpc]; rfl) rfl rfl rfl hempty
      (fun h => absurd h (by simp [FlusherPc.drains])) rfl rfl trivial
  | finalNone hpc hskip =>
    have hflush : s.flush = [] := hi.drained (by rw [hpc]; rfl)
    have hempty : s.active = [] := by
      by_contra hne
      exact hskip ⟨hflush, hne⟩
    exact hi.check hl (by rw [hpc]; rfl) rfl rfl (by rw [hempty]; exact hflush) hempty
      (fun _ => hempty) rfl rfl trivial
  | finalTest hpc =>
    rw [List.append_nil]
    have hchecked := hi.checked (.inl hpc)
    by_cases hflush : s.flush = []
    · rw [if_pos hflush]
      exact hi.goOn rfl (by rw [hpc]; rfl) (by rw [hpc]; rfl) (fun _ => hflush) trivial
        (fun _ => hchecked)
    · rw [if_neg hflush]
      exact hi.goOn rfl (by rw [hpc]; rfl) (by rw [hpc]; rfl)
        (fun h => absurd h (by simp [FlusherPc.drains])) trivial (fun _ => hchecked)

/-! ## 6. Runs -/

def Ok (s : State ι) (τ : List Event) : Prop := Locked s ∧ Kept s τ

theorem ok_init : Ok ({} : State ι) [] := by
  refine ⟨⟨fun t => by simp [CallerPc.holds], by simp [FlusherPc.holds]⟩, ?_⟩
  refine ⟨rfl, rfl, fun _ => rfl, trivial, by simp [batches], by simp, fun _ => rfl, by simp, ?_, by simp⟩
  simp

variable [DecidableEq ι]

theorem Ok.step {s s' : State ι} {τ es : List Event} {l : Label ι} (hi : Ok s τ)
    (h : step s l = some (s', es)) : Ok s' (τ ++ es) := by
  obtain ⟨hl, hk⟩ := hi
  cases l with
  | call t sender target content =>
    simp only [ChatLog.step] at h
    split at h
    · next hout =>
      simp only [Option.some.injEq, Prod.mk.injEq] at h
      obtain ⟨rfl, rfl⟩ := h
      exact ⟨hl.caller (by rw [hout]; rfl) rfl rfl rfl,
        hk.caller rfl (.inl rfl) (by simp [hout]) (by simp) (by simp)⟩
    · exact absurd h (by simp)
  | caller t => exact ⟨hl.callerStep h, hk.callerStep hl h⟩
  | flusher => exact ⟨hl.flusherStep h, hk.flusherStep hl h⟩
  | wake timedOut =>
    simp only [ChatLog.step] at h
    split at h
    · next hw =>
      obtain ⟨hpc, hfree⟩ := hw
      simp only [Option.some.injEq, Prod.mk.injEq] at h
      obtain ⟨rfl, rfl⟩ := h
      have hdrained := hk.drained
      rw [hpc] at hdrained
      rw [List.append_nil]
      cases timedOut with
      | false =>
        exact ⟨hl.flusher_lock rfl (.inl hfree) rfl,
          hk.goOn rfl (by rw [hpc]; rfl) (by rw [hpc]; rfl) hdrained trivial (by simp)⟩
      | true =>
        exact ⟨hl.flusher_lock rfl (.inl hfree) rfl,
          hk.goOn rfl (by rw [hpc]; rfl) (by rw [hpc]; rfl) hdrained trivial (by simp)⟩
    · exact absurd h (by simp)
  | stop =>
    simp only [ChatLog.step, Option.some.injEq, Prod.mk.injEq] at h
    obtain ⟨rfl, rfl⟩ := h
    rw [List.append_nil]
    exact ⟨⟨hl.callers, hl.flusher⟩, ⟨hk.order, hk.recent, hk.drained, hk.fill, hk.sizes, hk.checked,
      hk.depth, hk.owed, hk.limit, hk.room⟩⟩

theorem ok_of_run {ls : List (Label ι)} {s : State ι} {τ : List Event}
    (h : run step ({} : State ι) ls = some (s, τ)) : Ok s τ := by
  have := run_inv Ok Ok.step ok_init h
  rwa [List.nil_append] at this

/-- Nobody is between a change of a queue and the change of the counter that goes with it. -/
def BetweenOperations (s : State ι) : Prop :=
  (∀ t, s.callers t ≠ .counting) ∧ ∀ last n batch, s.flusher ≠ .counting last n batch

/-- **No log is lost, doubled or overtaken.** In every interleaving the batches passed on,
    the batch in the making and the two queues are the accepted logs in order; the counter
    is right between operations, and the queues keep to the limit always; a batch is
    neither empty nor too large; and when `chatLogFlushLoop` has returned, what it has
    passed on is exactly what was accepted before its last locked check. -/
theorem chatLog_kept {ls : List (Label ι)} {s : State ι} {τ : List Event}
    (h : run step ({} : State ι) ls = some (s, τ)) :
    (batches τ).flatten ++ s.flusher.batch ++ s.flush ++ s.active = acceptedLogs τ ∧
    (BetweenOperations s → s.queueDepth.toNat = s.active.length + s.flush.length ∧
      s.queueDepth.toNat ≤ kChatLogQueueLimit) ∧
    s.active.length + s.flush.length ≤ kChatLogQueueLimit ∧
    (∀ batch ∈ batches τ, 1 ≤ batch.length ∧ batch.length ≤ kChatLogBatchSize) ∧
    (s.flusher = .returned → ∃ τ₁ τ₂, τ = τ₁ ++ .lockedCheck :: τ₂ ∧ .lockedCheck ∉ τ₂ ∧
      (batches τ).flatten = acceptedLogs τ₁) := by
  obtain ⟨-, hk⟩ := ok_of_run h
  have hlimit := hk.limit
  refine ⟨hk.order, ?_, by omega, hk.sizes, ?_⟩
  · rintro ⟨hcallers, hflusher⟩
    have hsub : s.flusher.toSub = 0 := by
      cases hpc : s.flusher with
      | counting last n batch => exact absurd hpc (hflusher last n batch)
      | _ => rfl
    have hdepth := hk.depth hcallers
    omega
  · intro hret
    obtain ⟨τ₁, τ₂, hcut, hlast, hlogs⟩ := exists_last_check (hk.checked (.inr hret))
    refine ⟨τ₁, τ₂, hcut, hlast, ?_⟩
    have hflush : s.flush = [] := hk.drained (by rw [hret]; rfl)
    have horder := hk.order
    rw [hflush, hret, hk.recent, hlogs] at horder
    simpa [FlusherPc.batch] using horder

/-- One thread's log is taken into the last check, the other thread's comes too late. -/
def lateLog : List (Label Bool) :=
  [.call true (ascii "a") (ascii "b") (ascii "x"), .caller true, .caller true, .caller true, .flusher,
    .caller true, .stop, .caller true, .flusher, .flusher, .flusher, .flusher, .flusher, .flusher, .flusher, .flusher,
    .flusher, .flusher, .flusher, .call false (ascii "a") (ascii "b") (ascii "y"), .caller false,
    .caller false, .caller false, .caller false, .flusher]

theorem chatLog_kept_lateLog :
    ∃ s τ, run step ({} : State Bool) lateLog = some (s, τ) ∧ s.flusher = .returned ∧
      s.active.length = 1 ∧
      ((batches τ).flatten ++ s.flusher.batch ++ s.flush ++ s.active = acceptedLogs τ ∧
      (BetweenOperations s → s.queueDepth.toNat = s.active.length + s.flush.length ∧
        s.queueDepth.toNat ≤ kChatLogQueueLimit) ∧
      s.active.length + s.flush.length ≤ kChatLogQueueLimit ∧
      (∀ batch ∈ batches τ, 1 ≤ batch.length ∧ batch.length ≤ kChatLogBatchSize) ∧
      (s.flusher = .returned → ∃ τ₁ τ₂, τ = τ₁ ++ .lockedCheck :: τ₂ ∧ .lockedCheck ∉ τ₂ ∧
        (batches τ).flatten = acceptedLogs τ₁)) := by
  obtain ⟨⟨s, τ⟩, hrun, hs⟩ := Option.map_eq_some_iff.mp
    (show (run step ({} : State Bool) lateLog).map (fun p => (p.1.flusher, p.1.active.length)) =
      some (.returned, 1) by decide)
  obtain ⟨hret, hlen⟩ := Prod.mk.inj hs
  exact ⟨s, τ, hrun, hret, hlen, chatLog_kept hrun⟩

end ChatLog
end EpollChat
