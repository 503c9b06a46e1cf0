import EpollChat.Proof.Conn.Stream

/-!
# What `handleWrite` leaves behind

The interest is edge-triggered. Bytes that one call of `handleWrite` does not send wait for
another `EPOLLOUT` edge, and on their account there is one only if the last `::send` ran into a
full socket buffer, or if an `EPOLL_CTL_MOD` asks for the bit again. `handleWrite` never asks
again: its only `epoll_ctl` takes the bit *out*. So bytes left behind by any exit but the
`EAGAIN` one are parked.

Two exits do that. One is the budget: after 64 KiB the loop ends on a socket that would take
more (`backlog_parked`). The other is the window between the loop's last look at the
buffers and the last critical section: a packet queued there finds `writeArmed` set, so its
sender does not ask for the bit either. `LeavesNothing` rules out both, and
`nothing_parked_iff` says that there is no third.

A call is seen through a log kept beside the state: the last answer of `::send`, the `MOD`s and
the bytes left at the last critical section are not in the state any more when the call is back.
-/

namespace EpollChat
namespace Output

open Lib Machine

/-! ## 1. The log of one call -/

/-- `unsent` is as of the last critical section so far; `mods` are the `EPOLL_CTL_MOD`s issued,
    with or without `EPOLLOUT`. -/
structure CallLog where
  unsent : Bool := false
  lastSend : Option SendResult := none
  mods : List Bool := []
  disconnecting : Bool := false
deriving DecidableEq, Repr

/-- What a step adds to it. Only the reactor thread's steps do; with the budget used up,
    `takeChunk` is the loop's test and no critical section. -/
def observe (s s' : State) (log : CallLog) : Label → CallLog
  | .takeChunk =>
      match s.writer with
      | .loop flushed =>
          if flushed < WRITE_FLUSH_BUDGET_BYTES then { log with unsent := !s'.queue.isEmpty }
          else log
      | _ => log
  | .kernelSend r => { log with lastSend := some r }
  | .consumeSent => { log with unsent := !s'.queue.isEmpty }
  | .finishWrite => { log with unsent := !s'.queue.isEmpty }
  | .disableWrite => if s.reactorEpollFd then { log with mods := log.mods ++ [false] } else log
  | .failConnection => { log with disconnecting := true }
  | .sendPacket .. | .enableWrite _ | .dropConnection _ | .startWrite | .assignEpollFd | .epollAdd
  | .disconnect => log

/-- The log of a run that starts with log `log`. -/
def callLog : State → List Label → CallLog → CallLog
  | _, [], log => log
  | s, l :: ls, log =>
      match step s l with
      | none => log
      | some (s', _) => callLog s' ls (observe s s' log l)

/-- The call has disconnected, or left nothing, or there will be another edge. -/
def CallLog.Good (log : CallLog) : Prop :=
  log.disconnecting = false → log.unsent = true →
    log.lastSend = some .wouldBlock ∨ true ∈ log.mods

instance (log : CallLog) : Decidable log.Good := inferInstanceAs (Decidable (_ → _ → _))

/-- The loop's test fails: `flushed < WRITE_FLUSH_BUDGET_BYTES` no more. -/
def WriterPc.spent : WriterPc → Bool
  | .loop flushed => decide (WRITE_FLUSH_BUDGET_BYTES ≤ flushed)
  | _ => false

/-- The budget does not run out over unsent bytes, and no packet gets into the queue between
    the loop's last look at it and the last critical section. -/
def LeavesNothing (s : State) : Label → Prop
  | .takeChunk => s.writer.spent = true → s.queue.isEmpty = true
  | .sendPacket _ type data =>
      s.writer = .finishing → MAX_PENDING_SEND_BUFFER <
        (s.queue.pendingBytes + totalLength (encodeJsonToProto type data)) % 2 ^ 64
  | _ => True

instance (s : State) : DecidablePred (LeavesNothing s)
  | .takeChunk => inferInstanceAs (Decidable (_ → _))
  | .sendPacket .. => inferInstanceAs (Decidable (_ → _))
  | .enableWrite _ | .dropConnection _ | .startWrite | .kernelSend _ | .consumeSent | .finishWrite
  | .disableWrite | .failConnection | .assignEpollFd | .epollAdd | .disconnect => isTrue trivial

theorem callLog_cons {s s' : State} {l : Label} {ls : List Label} {es : List Event} {log : CallLog}
    (h : step s l = some (s', es)) :
    callLog s (l :: ls) log = callLog s' ls (observe s s' log l) := by
  rw [callLog, h]

/-! ## 2. The queue -/

/-- Whatever the buffers hold, it may be the end of a frame whose beginning is gone: the
    stream invariant is no restriction on the content. -/
theorem exists_stream {s : State} (hok : s.queue.Ok) (hf : s.writer.Fits s.queue) :
    ∃ τ, Stream s τ := by
  have hbody : encodeJsonToProto 12 (unsent s) = unsent s := by
    by_cases h : unsent s = []
    · rw [encodeJsonToProto, if_pos h, h]
    · rw [encodeJsonToProto, if_neg h]
      rfl
  let head := be32 (totalLength (unsent s)) ++ be16 12
  refine ⟨[.accepted 0 12 (unsent s), .wire head], hok, hf, ?_⟩
  show (head ++ []) ++ unsent s = frame 12 (unsent s) ++ []
  rw [frame, hbody, List.append_nil, List.append_nil, ← List.append_assoc]

/-- The loop finds nothing to send within its budget only when there is nothing. -/
theorem takeChunk_none {q q' : SendQueue} {flushed : Nat}
    (hlt : flushed < WRITE_FLUSH_BUDGET_BYTES) (h : q.takeChunk flushed = (none, q')) :
    q'.isEmpty = true := by
  simp only [SendQueue.takeChunk] at h
  split at h
  · next hact =>
    obtain ⟨-, rfl⟩ := Prod.mk.inj h
    -- an empty active buffer after the swap: the pending one was empty too
    unfold SendQueue.refill at hact ⊢
    split at hact
    · next hc => exact absurd hact (by have := hc.2; dsimp only; omega)
    · next hc =>
      rw [if_neg hc]
      rw [SendQueue.isEmpty, Bool.and_eq_true, beq_iff_eq, beq_iff_eq]
      exact ⟨hact, by omega⟩
  · next hact =>
    split at h
    · next hcan => exact absurd hcan (by omega)
    · exact absurd h (by simp)

/-- A packet in the queue is at least its six bytes of length and type. -/
theorem enqueue_not_isEmpty {q q' : SendQueue} {type : UInt16} {data : Bytes} {need : Bool}
    (hok : q.Ok) (h : q.enqueue type data = some (.queued need, q')) : q'.isEmpty = false := by
  rcases SendQueue.enqueue_cases hok h with ⟨hr, -⟩ | ⟨-, -, -, hpend, -, -, -⟩
  · exact absurd hr (by simp)
  · rw [← Bool.not_eq_true, SendQueue.isEmpty_iff, hpend]
    rintro ⟨-, hnil⟩
    have hlen : (frame type data).length = 0 := by
      rw [(List.append_eq_nil_iff.mp hnil).2]
      rfl
    simp [frame] at hlen

/-- Which packets `sendPacket` lets in. -/
theorem enqueue_dropped_iff {q q' : SendQueue} {type : UInt16} {data : Bytes} {r : SendQueue.Enqueued}
    (h : q.enqueue type data = some (r, q')) :
    r = .dropped ↔ MAX_PENDING_SEND_BUFFER <
      (q.pendingBytes + totalLength (encodeJsonToProto type data)) % 2 ^ 64 := by
  simp only [SendQueue.enqueue] at h
  split at h
  · exact absurd h (by simp)
  · split at h
    · next hover =>
      obtain ⟨rfl, -⟩ := Prod.mk.inj (Option.some.inj h)
      exact ⟨fun _ => hover, fun _ => rfl⟩
    · next hover =>
      split at h
      · exact absurd h (by simp)
      · obtain ⟨rfl, -⟩ := Prod.mk.inj (Option.some.inj h)
        exact ⟨fun hd => absurd hd (by simp), fun hd => absurd hd hover⟩

/-! ## 3. One step -/

/-- A call in its loop has not met `EAGAIN`, asked for the bit or failed. -/
structure CallLog.Running (log : CallLog) : Prop where
  lastSend : log.lastSend ≠ some .wouldBlock
  mods : true ∉ log.mods
  disconnecting : log.disconnecting = false

/-- What the log says by the place `handleWrite` is at. -/
def Tracks (log : CallLog) : WriterPc → Prop
  | .loop _ | .sending .. | .sent .. | .finishing => log.Running
  | .disabling => log.unsent = false
  | .failing | .idle => True

/-- Nothing is lost so far: the log is good, or it can still become so. -/
def Clean (s : State) (log : CallLog) : Prop :=
  match s.writer with
  | .loop _ | .sending .. | .sent .. | .failing => True
  | .finishing => s.queue.isEmpty = true
  | .disabling | .idle => log.Good

theorem CallLog.Good.of_unsent {log : CallLog} (h : log.unsent = false) : log.Good := by
  intro _ hu
  rw [h] at hu
  exact absurd hu (by simp)

theorem CallLog.Running.good_iff {log : CallLog} (h : log.Running) :
    log.Good ↔ log.unsent = false := by
  refine ⟨fun hg => ?_, CallLog.Good.of_unsent⟩
  cases hu : log.unsent with
  | false => rfl
  | true =>
    rcases hg h.disconnecting hu with hs | hm
    · exact absurd hs h.lastSend
    · exact absurd hm h.mods

/-- One step keeps the log in track, and spoils it exactly if it violates the condition. -/
def Tracked (s s' : State) (log : CallLog) (l : Label) : Prop :=
  Tracks (observe s s' log l) s'.writer ∧
    (Clean s' (observe s s' log l) ↔ Clean s log ∧ LeavesNothing s l)

/-- A step of another thread that leaves the buffers alone. -/
theorem tracked_same {s s' : State} {log : CallLog} {l : Label} (ht : Tracks log s.writer)
    (hq : s'.queue = s.queue) (hw : s'.writer = s.writer) (ho : observe s s' log l = log)
    (hl : LeavesNothing s l) : Tracked s s' log l := by
  refine ⟨by rw [ho, hw]; exact ht, ?_⟩
  rw [ho, Clean, Clean, hq, hw]
  exact ⟨fun h => ⟨h, hl⟩, fun h => h.1⟩

theorem tracked_sendPacket {s s' : State} {log : CallLog} {tid : Nat} {type : UInt16} {data : Bytes}
    {es : List Event} (hok : s.queue.Ok) (ht : Tracks log s.writer)
    (h : sendPacket s tid type data = some (s', es)) :
    Tracked s s' log (.sendPacket tid type data) := by
  obtain ⟨-, ⟨q, he, rfl, -⟩ | ⟨need, q, he, rfl, -⟩⟩ := sendPacket_cases h
  · rcases SendQueue.enqueue_cases hok he with ⟨-, rfl⟩ | ⟨hr, -⟩
    · exact tracked_same ht rfl rfl rfl fun _ => (enqueue_dropped_iff he).mp rfl
    · exact absurd hr (by simp)
  · have hin : ¬ MAX_PENDING_SEND_BUFFER <
        (s.queue.pendingBytes + totalLength (encodeJsonToProto type data)) % 2 ^ 64 :=
      fun hover => absurd ((enqueue_dropped_iff he).mpr hover) (by simp)
    refine ⟨ht, ?_⟩
    show Clean _ log ↔ _
    cases hw : s.writer with
    | finishing =>
      have hne := enqueue_not_isEmpty hok he
      constructor
      · intro hc
        simp only [Clean, setSender, hne] at hc
        exact absurd hc (by simp)
      · exact fun hc => absurd (hc.2 hw) hin
    | _ =>
      have hl : LeavesNothing s (.sendPacket tid type data) := by
        intro hfin
        rw [hw] at hfin
        exact absurd hfin (by simp)
      simp only [Clean, setSender, hw]
      exact ⟨fun hc => ⟨hc, hl⟩, fun hc => hc.1⟩

theorem tracked_takeChunk {s : State} {log : CallLog} {flushed : Nat}
    (ht : Tracks log s.writer) (hw : s.writer = .loop flushed) :
    Tracked s (takeChunk s flushed) log .takeChunk := by
  have hrun : log.Running := by
    rw [hw] at ht
    exact ht
  have hclean : Clean s log := by
    rw [Clean, hw]
    trivial
  have hcond : LeavesNothing s .takeChunk ↔
      (WRITE_FLUSH_BUDGET_BYTES ≤ flushed → s.queue.isEmpty = true) := by
    simp [LeavesNothing, WriterPc.spent, hw]
  rw [Tracked, hcond]
  by_cases hlt : flushed < WRITE_FLUSH_BUDGET_BYTES
  · have hl : WRITE_FLUSH_BUDGET_BYTES ≤ flushed → s.queue.isEmpty = true :=
      fun hle => absurd hlt (by omega)
    have hrun' : ∀ u : Bool, CallLog.Running { log with unsent := u } :=
      fun _ => ⟨hrun.lastSend, hrun.mods, hrun.disconnecting⟩
    cases hc : s.queue.takeChunk flushed with
    | mk r q =>
      cases r with
      | none =>
        have hs : takeChunk s flushed = { s with queue := q, writer := .finishing } := by
          rw [takeChunk, if_pos hlt, hc]
        rw [hs]
        refine ⟨?_, fun _ => ⟨hclean, hl⟩, fun _ => takeChunk_none hlt hc⟩
        simp only [observe, hw, if_pos hlt]
        exact hrun' _
      | some p =>
        obtain ⟨ptr, canSend⟩ := p
        have hs : takeChunk s flushed
            = { s with queue := q, writer := .sending flushed ptr canSend } := by
          rw [takeChunk, if_pos hlt, hc]
        rw [hs]
        refine ⟨?_, fun _ => ⟨hclean, hl⟩, fun _ => trivial⟩
        simp only [observe, hw, if_pos hlt]
        exact hrun' _
  · -- the budget is used up: whatever is left stays
    have hs : takeChunk s flushed = { s with writer := .finishing } := by
      rw [takeChunk, if_neg hlt]
    rw [hs]
    refine ⟨?_, ?_⟩
    · simp only [observe, hw, if_neg hlt]
      exact hrun
    · show s.queue.isEmpty = true ↔ _
      exact ⟨fun he => ⟨hclean, fun _ => he⟩, fun h => h.2 (by omega)⟩

theorem tracked_kernelSend {s s' : State} {log : CallLog} {flushed canSend : Nat} {ptr : Nat × Nat}
    {r : SendResult} {es : List Event} (ht : Tracks log s.writer)
    (hw : s.writer = .sending flushed ptr canSend)
    (h : kernelSend s flushed ptr canSend r = some (s', es)) :
    Tracked s s' log (.kernelSend r) := by
  have hrun : log.Running := by
    rw [hw] at ht
    exact ht
  have hclean : Clean s log := by
    rw [Clean, hw]
    trivial
  cases r with
  | took n =>
    simp only [kernelSend] at h
    split at h
    · obtain ⟨rfl, -⟩ := Prod.mk.inj (Option.some.inj h)
      refine ⟨⟨?_, hrun.mods, hrun.disconnecting⟩, fun _ => ⟨hclean, trivial⟩, fun _ => trivial⟩
      simp [observe]
    · exact absurd h (by simp)
  | wouldBlock =>
    simp only [kernelSend] at h
    obtain ⟨rfl, -⟩ := Prod.mk.inj (Option.some.inj h)
    exact ⟨trivial, fun _ => ⟨hclean, trivial⟩, fun _ _ _ => Or.inl rfl⟩
  | failed =>
    simp only [kernelSend] at h
    obtain ⟨rfl, -⟩ := Prod.mk.inj (Option.some.inj h)
    exact ⟨trivial, fun _ => ⟨hclean, trivial⟩, fun _ => trivial⟩

theorem tracked_finishWrite {s : State} {log : CallLog} (ht : Tracks log s.writer)
    (hw : s.writer = .finishing) : Tracked s (finishWrite s) log .finishWrite := by
  have hrun : log.Running := by
    rw [hw] at ht
    exact ht
  have hclean : Clean s log ↔ s.queue.isEmpty = true := by
    rw [Clean, hw]
  rw [Tracked, hclean]
  cases he : s.queue.isEmpty with
  | true =>
    have hs : finishWrite s
        = { s with queue := { s.queue with writeArmed := false }, writer := .disabling } := by
      rw [finishWrite, SendQueue.finishWrite_eq, he]
      rfl
    rw [hs]
    have hempty : SendQueue.isEmpty { s.queue with writeArmed := false } = true := he
    have hu : (observe s { s with
        queue := { s.queue with writeArmed := false }, writer := .disabling }
        log .finishWrite).unsent = false := by
      simp [observe, hempty]
    exact ⟨hu, fun _ => ⟨rfl, trivial⟩, fun _ => CallLog.Good.of_unsent hu⟩
  | false =>
    have hs : finishWrite s = { s with writer := .idle } := by
      rw [finishWrite, SendQueue.finishWrite_eq, he]
      rfl
    rw [hs]
    refine ⟨trivial, fun hg => ?_, fun h => absurd h.1 (by simp)⟩
    have hgood : CallLog.Good { log with unsent := !s.queue.isEmpty } := hg
    have hrun' : CallLog.Running { log with unsent := !s.queue.isEmpty } :=
      ⟨hrun.lastSend, hrun.mods, hrun.disconnecting⟩
    have hu := hrun'.good_iff.mp hgood
    rw [he] at hu
    exact absurd hu (by simp)

theorem tracked_disableWrite {s : State} {log : CallLog} (ht : Tracks log s.writer)
    (hw : s.writer = .disabling) :
    Tracked s { modInterest s false with writer := .idle } log .disableWrite := by
  have hu : log.unsent = false := by
    rw [hw] at ht
    exact ht
  have hclean : Clean s log := by
    rw [Clean, hw]
    exact CallLog.Good.of_unsent hu
  refine ⟨trivial, fun _ => ⟨hclean, trivial⟩, fun _ => CallLog.Good.of_unsent ?_⟩
  simp only [observe]
  split <;> exact hu

/-- **One step**, whoever takes it, within one call of `handleWrite`. -/
theorem tracked_step {s s' : State} {log : CallLog} {l : Label} {es : List Event}
    (hok : s.queue.Ok) (ht : Tracks log s.writer) (hl : l ≠ .startWrite)
    (h : step s l = some (s', es)) : Tracked s s' log l := by
  cases move_of_step h with
  | sendPacket hs => exact tracked_sendPacket hok ht hs
  | enableWrite _ =>
    exact tracked_same ht (modInterest_queue s true) (modInterest_writer s true) rfl trivial
  | dropConnection _ => exact tracked_same ht rfl rfl rfl trivial
  | startWrite _ => exact absurd rfl hl
  | takeChunk hw => exact tracked_takeChunk ht hw
  | kernelSend hw hs => exact tracked_kernelSend ht hw hs
  | consumeSent hw =>
    rw [hw] at ht
    refine ⟨⟨ht.lastSend, ht.mods, ht.disconnecting⟩, fun _ => ⟨?_, trivial⟩, fun _ => trivial⟩
    rw [Clean, hw]
    trivial
  | finishWrite hw => exact tracked_finishWrite ht hw
  | disableWrite hw => exact tracked_disableWrite ht hw
  | failConnection hw =>
    refine ⟨trivial, fun _ => ⟨?_, trivial⟩, fun _ hd => absurd hd (by simp [observe])⟩
    rw [Clean, hw]
    trivial
  | assignEpollFd => exact tracked_same ht rfl rfl rfl trivial
  | epollAdd _ _ _ => exact tracked_same ht rfl rfl rfl trivial
  | disconnect => exact tracked_same ht rfl rfl rfl trivial

/-! ## 4. One call -/

/-- What is left of a call ends clean exactly if it is clean and every step meets the
    condition. -/
theorem clean_run : ∀ {ls : List Label} {s s' : State} {τ₀ τ : List Event} {log : CallLog},
    Stream s τ₀ → Tracks log s.writer → Label.startWrite ∉ ls → run step s ls = some (s', τ) →
      (Clean s' (callLog s ls log) ↔ Clean s log ∧ Meets step LeavesNothing s ls) := by
  intro ls
  induction ls with
  | nil =>
    intro s s' τ₀ τ log _ _ _ hr
    obtain ⟨rfl, -⟩ := Prod.mk.inj (Option.some.inj hr)
    exact ⟨fun h => ⟨h, trivial⟩, fun h => h.1⟩
  | cons l ls ih =>
    intro s s' τ₀ τ log hi ht hne hr
    obtain ⟨s₁, es, τ', hs, hr', -⟩ := run_cons hr
    obtain ⟨hl, hls⟩ := List.ne_and_not_mem_of_not_mem_cons hne
    obtain ⟨ht₁, hc₁⟩ := tracked_step hi.queue_ok ht (Ne.symm hl) hs
    rw [callLog_cons hs, ih (hi.step hs) ht₁ hls hr', hc₁, and_assoc, meets_cons hs]

/-- **Nothing is parked, exactly when nothing can be left.** One call of `handleWrite`, from any
    content of the two buffers, with any answers of `::send` and any steps of the other
    threads in between: it disconnects, or leaves no byte as of its last critical section, or
    its last `::send` would have blocked, or it asks for `EPOLLOUT` again, if and only if its
    budget does not run out over unsent bytes and nothing is queued between the loop and the
    last critical section. -/
theorem nothing_parked_iff {s s' : State} {ls : List Label} {τ : List Event} (hok : s.queue.Ok)
    (hw : s.writer = .idle) (hone : Label.startWrite ∉ ls)
    (hr : run step s (.startWrite :: ls) = some (s', τ)) (hback : s'.writer = .idle) :
    (callLog s (.startWrite :: ls) {}).Good ↔ Meets step LeavesNothing s (.startWrite :: ls) := by
  obtain ⟨s₁, es, τ', hs, hr', -⟩ := run_cons hr
  obtain ⟨τ₀, hi⟩ := exists_stream hok (by rw [hw]; trivial)
  have hs₁ : s₁ = { s with writer := .loop 0 } := by
    simp only [step, hw, Option.some.injEq, Prod.mk.injEq] at hs
    exact hs.1.symm
  have hstart : Tracks {} s₁.writer ∧ Clean s₁ {} := by
    rw [hs₁]
    exact ⟨⟨by simp, by simp, rfl⟩, trivial⟩
  have h := clean_run (hi.step hs) hstart.1 hone hr'
  rw [Clean, hback] at h
  rw [callLog_cons hs, meets_cons hs]
  exact h.trans ⟨fun hm => ⟨trivial, hm.2⟩, fun hm => ⟨hstart.2, hm.2⟩⟩

/-- A heartbeat answer goes out in two pieces, and a second one that is queued meanwhile goes out
    after it. -/
theorem nothing_parked_two : ∃ s s' τ, s.queue.Ok ∧
    run step s ([.startWrite, .takeChunk, .kernelSend (.took 4), .sendPacket 1 2 [], .consumeSent,
      .takeChunk, .kernelSend (.took 2), .consumeSent, .takeChunk, .kernelSend (.took 6),
      .consumeSent, .takeChunk, .finishWrite, .disableWrite]) = some (s', τ) ∧
    (callLog s [.startWrite, .takeChunk, .kernelSend (.took 4), .sendPacket 1 2 [], .consumeSent,
      .takeChunk, .kernelSend (.took 2), .consumeSent, .takeChunk, .kernelSend (.took 6),
      .consumeSent, .takeChunk, .finishWrite, .disableWrite] {}).Good := by
  obtain ⟨⟨s, τ₀⟩, hs⟩ := Option.isSome_iff_exists.mp (show (run step (registered .fresh)
    [.sendPacket 0 2 [], .enableWrite 0]).isSome = true from rfl)
  have hi := run_inv Stream (fun hi hs => hi.step hs) (Stream.start rfl rfl) hs
  obtain ⟨rfl, rfl⟩ := Prod.mk.inj (Option.some.inj hs)
  refine ⟨_, _, _, hi.queue_ok, rfl, ?_⟩
  exact (nothing_parked_iff hi.queue_ok rfl (by decide) rfl rfl).mpr (by decide)

/-- One byte more than the budget is queued, and a socket that takes all of it. -/
def backlog : State :=
  { queue :=
      { heap := { next := 2 }
        pendingSendBuffer := { m_capacity := 4096, m_data := 0 }
        activeSendBuffer := { m_capacity := 131072, m_size := 65537, m_data := 1 }
        writeArmed := true
        pendingBytes := 65537 }
    reactorEpollFd := true
    interest := some true }

/-- **Parked.** The kernel takes the whole budget at once; the last byte stays, with no `EAGAIN`
    and no `EPOLL_CTL_MOD`. -/
theorem backlog_parked : backlog.queue.Ok ∧ backlog.writer = .idle ∧ ∃ s τ,
    run step backlog [.startWrite, .takeChunk, .kernelSend (.took 65536), .consumeSent, .takeChunk,
      .finishWrite] = some (s, τ) ∧
    s.writer = .idle ∧ s.disconnected = false ∧ s.queue.isEmpty = false ∧
    ¬ (callLog backlog [.startWrite, .takeChunk, .kernelSend (.took 65536), .consumeSent,
      .takeChunk, .finishWrite] {}).Good := by
  refine ⟨⟨⟨?_, ?_, ?_, ?_⟩, ⟨?_, ?_, ?_, ?_⟩, ?_⟩, rfl, _, _, rfl, rfl, rfl, rfl, ?_⟩
  all_goals decide

end Output
end EpollChat
