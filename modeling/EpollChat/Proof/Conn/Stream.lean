import EpollChat.Conn.Output
import EpollChat.Proof.Conn.SendQueue

/-!
# The outgoing byte stream

What the kernel has taken, then what is left of the active buffer, then the pending
buffer, is the concatenation of the accepted frames, in every state of every run.

The difficulty is the window of `handleWrite` in which it holds a pointer and no lock.
`Stream.fits` is what survives there: while the reactor thread is about to send, the
pointer is the active buffer's own, because `sendPacket` only ever touches the block of
the *other* buffer, and the two buffers change roles only in the reactor thread.
-/

namespace EpollChat
namespace Output

open Lib Machine

/-! ## 1. The moves -/

/-- What a step can do, label by label. The critical sections of `sendPacket` and the answers
    of `::send` have lemmas of their own. -/
inductive Move (s : State) : Label → State → List Event → Prop where
  | sendPacket {tid type data s' es} (h : Output.sendPacket s tid type data = some (s', es)) :
      Move s (.sendPacket tid type data) s' es
  | enableWrite {tid} (ht : s.senders tid = .enabling) :
      Move s (.enableWrite tid) (setSender (modInterest s true) tid .idle) []
  | dropConnection {tid} (ht : s.senders tid = .dropping) :
      Move s (.dropConnection tid) (setSender (Output.disconnected s) tid .idle) []
  | startWrite (hw : s.writer = .idle) : Move s .startWrite { s with writer := .loop 0 } []
  | takeChunk {flushed} (hw : s.writer = .loop flushed) :
      Move s .takeChunk (Output.takeChunk s flushed) []
  | kernelSend {flushed ptr canSend r s' es} (hw : s.writer = .sending flushed ptr canSend)
      (h : Output.kernelSend s flushed ptr canSend r = some (s', es)) : Move s (.kernelSend r) s' es
  | consumeSent {flushed n} (hw : s.writer = .sent flushed n) :
      Move s .consumeSent
        { s with queue := s.queue.consumeSent n, writer := .loop (flushed + n) } []
  | finishWrite (hw : s.writer = .finishing) : Move s .finishWrite (Output.finishWrite s) []
  | disableWrite (hw : s.writer = .disabling) :
      Move s .disableWrite { modInterest s false with writer := .idle } []
  | failConnection (hw : s.writer = .failing) :
      Move s .failConnection { Output.disconnected s with writer := .idle } []
  | assignEpollFd : Move s .assignEpollFd { s with reactorEpollFd := true } []
  | epollAdd (hfd : s.reactorEpollFd = true) (hnone : s.interest = none)
      (hlive : s.disconnected = false) : Move s .epollAdd { s with interest := some false } []
  | disconnect : Move s .disconnect (Output.disconnected s) []

theorem move_of_step {s s' : State} {l : Label} {es : List Event} (h : step s l = some (s', es)) :
    Move s l s' es := by
  cases l with
  | sendPacket tid type data => exact .sendPacket h
  | enableWrite tid =>
    simp only [step] at h
    split at h
    · next ht =>
      simp only [Option.some.injEq, Prod.mk.injEq] at h
      obtain ⟨rfl, rfl⟩ := h
      exact .enableWrite ht
    · exact absurd h (by simp)
  | dropConnection tid =>
    simp only [step] at h
    split at h
    · next ht =>
      simp only [Option.some.injEq, Prod.mk.injEq] at h
      obtain ⟨rfl, rfl⟩ := h
      exact .dropConnection ht
    · exact absurd h (by simp)
  | startWrite =>
    simp only [step] at h
    split at h
    · next hw =>
      simp only [Option.some.injEq, Prod.mk.injEq] at h
      obtain ⟨rfl, rfl⟩ := h
      exact .startWrite hw
    · exact absurd h (by simp)
  | takeChunk =>
    simp only [step] at h
    split at h
    · next hw =>
      simp only [Option.some.injEq, Prod.mk.injEq] at h
      obtain ⟨rfl, rfl⟩ := h
      exact .takeChunk hw
    · exact absurd h (by simp)
  | kernelSend r =>
    simp only [step] at h
    split at h
    · next hw => exact .kernelSend hw h
    · exact absurd h (by simp)
  | consumeSent =>
    simp only [step] at h
    split at h
    · next hw =>
      simp only [Option.some.injEq, Prod.mk.injEq] at h
      obtain ⟨rfl, rfl⟩ := h
      exact .consumeSent hw
    · exact absurd h (by simp)
  | finishWrite =>
    simp only [step] at h
    split at h
    · next hw =>
      simp only [Option.some.injEq, Prod.mk.injEq] at h
      obtain ⟨rfl, rfl⟩ := h
      exact .finishWrite hw
    · exact absurd h (by simp)
  | disableWrite =>
    simp only [step] at h
    split at h
    · next hw =>
      simp only [Option.some.injEq, Prod.mk.injEq] at h
      obtain ⟨rfl, rfl⟩ := h
      exact .disableWrite hw
    · exact absurd h (by simp)
  | failConnection =>
    simp only [step] at h
    split at h
    · next hw =>
      simp only [Option.some.injEq, Prod.mk.injEq] at h
      obtain ⟨rfl, rfl⟩ := h
      exact .failConnection hw
    · exact absurd h (by simp)
  | assignEpollFd =>
    simp only [step, Option.some.injEq, Prod.mk.injEq] at h
    obtain ⟨rfl, rfl⟩ := h
    exact .assignEpollFd
  | epollAdd =>
    simp only [step] at h
    split at h
    · next hc =>
      simp only [Option.some.injEq, Prod.mk.injEq] at h
      obtain ⟨rfl, rfl⟩ := h
      exact .epollAdd hc.1 hc.2.1 hc.2.2
    · exact absurd h (by simp)
  | disconnect =>
    simp only [step, Option.some.injEq, Prod.mk.injEq] at h
    obtain ⟨rfl, rfl⟩ := h
    exact .disconnect

/-- The critical section of `sendPacket`: a packet over the limit is dropped with the queue
    as it was left, any other is in the queue. -/
theorem sendPacket_cases {s s' : State} {tid : Nat} {type : UInt16} {data : Bytes}
    {es : List Event} (h : sendPacket s tid type data = some (s', es)) :
    s.senders tid = .idle ∧
      ((∃ q, s.queue.enqueue type data = some (.dropped, q) ∧
        s' = setSender { s with queue := q } tid .dropping ∧ es = [.dropped tid type data]) ∨
      ∃ need q, s.queue.enqueue type data = some (.queued need, q) ∧
        s' = setSender { s with queue := q } tid (if need then .enabling else .idle) ∧
        es = [.accepted tid type data]) := by
  unfold sendPacket at h
  split at h
  · next hidle =>
    refine ⟨hidle, ?_⟩
    split at h
    · exact absurd h (by simp)
    · next q he =>
      simp only [Option.some.injEq, Prod.mk.injEq] at h
      exact Or.inl ⟨q, he, h.1.symm, h.2.symm⟩
    · next need q he =>
      simp only [Option.some.injEq, Prod.mk.injEq] at h
      exact Or.inr ⟨need, q, he, h.1.symm, h.2.symm⟩
  · exact absurd h (by simp)

/-- `::send` and what `handleWrite` makes of its answer, outside every critical section. -/
theorem kernelSend_writer {s s' : State} {flushed canSend : Nat} {ptr : Nat × Nat} {r : SendResult}
    {es : List Event} (h : kernelSend s flushed ptr canSend r = some (s', es)) :
    ∃ w, s' = { s with writer := w } := by
  cases r with
  | took n =>
    simp only [kernelSend] at h
    split at h
    · simp only [Option.some.injEq, Prod.mk.injEq] at h
      exact ⟨_, h.1.symm⟩
    · exact absurd h (by simp)
  | wouldBlock =>
    simp only [kernelSend, Option.some.injEq, Prod.mk.injEq] at h
    exact ⟨_, h.1.symm⟩
  | failed =>
    simp only [kernelSend, Option.some.injEq, Prod.mk.injEq] at h
    exact ⟨_, h.1.symm⟩

/-! ## 2. The invariant -/

/-- What `handleWrite` remembers between its critical sections is still true of the
    active buffer. -/
def WriterPc.Fits (q : SendQueue) : WriterPc → Prop
  | .sending _ ptr canSend =>
      ptr = q.activeSendBuffer.currentData ∧ canSend ≤ q.activeSendBuffer.remaining
  | .sent _ n => n ≤ q.activeSendBuffer.remaining
  | _ => True

/-- The bytes still to be sent. -/
def unsent (s : State) : Bytes := s.queue.active.drop s.writer.inFlight ++ s.queue.pending

structure Stream (s : State) (τ : List Event) : Prop where
  queue_ok : s.queue.Ok
  fits : s.writer.Fits s.queue
  bytes : wireBytes τ ++ unsent s = (acceptedFrames τ).flatten

theorem wireBytes_append (τ es : List Event) :
    wireBytes (τ ++ es) = wireBytes τ ++ wireBytes es := by
  simp [wireBytes]

theorem acceptedFrames_append (τ es : List Event) :
    acceptedFrames (τ ++ es) = acceptedFrames τ ++ acceptedFrames es := by
  simp [acceptedFrames]

/-- A step that emits nothing and leaves the unsent bytes as they are. -/
theorem Stream.silent {s s' : State} {τ : List Event} (hi : Stream s τ) (hq : s'.queue.Ok)
    (hf : s'.writer.Fits s'.queue) (hu : unsent s' = unsent s) : Stream s' (τ ++ []) := by
  rw [List.append_nil]
  exact ⟨hq, hf, by rw [hu]; exact hi.bytes⟩

/-- A step that does not even look at the queue. -/
theorem Stream.same {s s' : State} {τ : List Event} (hi : Stream s τ) (hq : s'.queue = s.queue)
    (hw : s'.writer = s.writer) : Stream s' (τ ++ []) := by
  refine hi.silent (by rw [hq]; exact hi.queue_ok) (by rw [hq, hw]; exact hi.fits) ?_
  rw [unsent, unsent, hq, hw]

@[simp] theorem modInterest_queue (s : State) (out : Bool) : (modInterest s out).queue = s.queue := by
  unfold modInterest
  split <;> rfl

@[simp] theorem modInterest_writer (s : State) (out : Bool) :
    (modInterest s out).writer = s.writer := by
  unfold modInterest
  split <;> rfl

/-! ## 3. One step -/

theorem WriterPc.Fits.frame {w : WriterPc} {q q' : SendQueue} (h : w.Fits q)
    (hb : q'.activeSendBuffer = q.activeSendBuffer) : w.Fits q' := by
  cases w with
  | sending f p c => simpa only [WriterPc.Fits, hb] using h
  | sent f n => simpa only [WriterPc.Fits, hb] using h
  | idle => trivial
  | loop f => trivial
  | finishing => trivial
  | disabling => trivial
  | failing => trivial

theorem Stream.sendPacket {s s' : State} {τ es : List Event} {tid : Nat} {type : UInt16}
    {data : Bytes} (hi : Stream s τ) (h : sendPacket s tid type data = some (s', es)) :
    Stream s' (τ ++ es) := by
  obtain ⟨-, ⟨q, he, rfl, rfl⟩ | ⟨need, q, he, rfl, rfl⟩⟩ := sendPacket_cases h
  · -- a dropped packet leaves no byte behind
    rcases SendQueue.enqueue_cases hi.queue_ok he with ⟨-, rfl⟩ | ⟨hr, -⟩
    · refine ⟨hi.queue_ok, hi.fits, ?_⟩
      rw [wireBytes_append, acceptedFrames_append]
      simpa [wireBytes, acceptedFrames, unsent, setSender] using hi.bytes
    · exact absurd hr (by simp)
  · rcases SendQueue.enqueue_cases hi.queue_ok he with ⟨hr, -⟩ | ⟨-, hq, hact, hpend, hbuf, -, -⟩
    · exact absurd hr (by simp)
    · refine ⟨hq, hi.fits.frame hbuf, ?_⟩
      have hu : unsent (setSender { s with queue := q } tid (if need then .enabling else .idle))
          = unsent s ++ frame type data := by
        simp only [unsent, setSender, hact, hpend, List.append_assoc]
      have hb := hi.bytes
      rw [wireBytes_append, acceptedFrames_append, hu, List.flatten_append, ← hb]
      simp [wireBytes, acceptedFrames]

theorem Stream.takeChunk {s : State} {τ : List Event} {flushed : Nat} (hi : Stream s τ)
    (hw : s.writer = .loop flushed) : Stream (takeChunk s flushed) (τ ++ []) := by
  have hus : unsent s = s.queue.active ++ s.queue.pending := by
    rw [unsent, hw]
    rfl
  unfold Output.takeChunk
  split
  · cases ht : s.queue.takeChunk flushed with
    | mk r q =>
      obtain ⟨hq, hcat, -, hr⟩ := SendQueue.takeChunk_spec hi.queue_ok ht
      cases r with
      | none => exact hi.silent hq trivial (by rw [hus, ← hcat]; rfl)
      | some p =>
        obtain ⟨ptr, canSend⟩ := p
        exact hi.silent hq (hr ptr canSend rfl) (by rw [hus, ← hcat]; rfl)
  · exact hi.silent hi.queue_ok trivial (by rw [hus]; rfl)

/-- The kernel reads through the pointer what the active buffer holds. -/
theorem Stream.kernelSend {s s' : State} {τ es : List Event} {flushed canSend : Nat}
    {ptr : Nat × Nat} {r : SendResult} (hi : Stream s τ)
    (hw : s.writer = .sending flushed ptr canSend)
    (h : kernelSend s flushed ptr canSend r = some (s', es)) : Stream s' (τ ++ es) := by
  have hfit := hi.fits
  rw [hw] at hfit
  obtain ⟨rfl, hcan⟩ := hfit
  have hus : unsent s = s.queue.active ++ s.queue.pending := by
    rw [unsent, hw]
    rfl
  cases r with
  | took n =>
    simp only [Output.kernelSend] at h
    split at h
    · next hn =>
      simp only [Option.some.injEq, Prod.mk.injEq] at h
      obtain ⟨rfl, rfl⟩ := h
      have hle : n ≤ s.queue.activeSendBuffer.remaining := Nat.le_trans hn.2 hcan
      refine ⟨hi.queue_ok, hle, ?_⟩
      have hwire : wireBytes [Event.wire (s.queue.readAt s.queue.activeSendBuffer.currentData n)]
          = s.queue.active.take n := by
        simp [wireBytes, SendQueue.readAt_currentData s.queue hle]
      have hu : unsent { s with writer := .sent flushed n }
          = s.queue.active.drop n ++ s.queue.pending := rfl
      have hb := hi.bytes
      rw [hus] at hb
      rw [wireBytes_append, acceptedFrames_append, hwire, hu, List.append_assoc,
        ← List.append_assoc (List.take _ _), List.take_append_drop, hb]
      simp [acceptedFrames]
    · exact absurd h (by simp)
  | wouldBlock =>
    simp only [Output.kernelSend, Option.some.injEq, Prod.mk.injEq] at h
    obtain ⟨rfl, rfl⟩ := h
    exact hi.silent hi.queue_ok trivial (by rw [hus]; rfl)
  | failed =>
    simp only [Output.kernelSend, Option.some.injEq, Prod.mk.injEq] at h
    obtain ⟨rfl, rfl⟩ := h
    exact hi.silent hi.queue_ok trivial (by rw [hus]; rfl)

theorem Stream.consumeSent {s : State} {τ : List Event} {flushed n : Nat} (hi : Stream s τ)
    (hw : s.writer = .sent flushed n) :
    Stream { s with queue := s.queue.consumeSent n, writer := .loop (flushed + n) } (τ ++ []) := by
  have hn := hi.fits
  rw [hw] at hn
  obtain ⟨hq, hact, hpend, -⟩ := SendQueue.consumeSent_spec hi.queue_ok hn
  refine hi.silent hq trivial ?_
  rw [unsent, unsent, hw]
  show (s.queue.consumeSent n).active.drop 0 ++ (s.queue.consumeSent n).pending
    = s.queue.active.drop n ++ s.queue.pending
  rw [hact, hpend, List.drop_zero]

theorem finishWrite_queue (s : State) :
    s.queue.finishWrite.2.Ok ↔ s.queue.Ok := by
  rw [SendQueue.finishWrite_eq]
  split
  · exact ⟨fun h => ⟨h.pending_ok, h.active_ok, h.distinct⟩,
      fun h => ⟨h.pending_ok, h.active_ok, h.distinct⟩⟩
  · exact Iff.rfl

theorem Stream.finishWrite {s : State} {τ : List Event} (hi : Stream s τ)
    (hw : s.writer = .finishing) : Stream (finishWrite s) (τ ++ []) := by
  have hus : unsent s = s.queue.active ++ s.queue.pending := by
    rw [unsent, hw]
    rfl
  refine hi.silent ((finishWrite_queue s).mpr hi.queue_ok) ?_ ?_
  · unfold Output.finishWrite
    dsimp only
    split <;> trivial
  · rw [hus, unsent, Output.finishWrite, SendQueue.finishWrite_eq]
    split <;> rfl

/-- **One step keeps the stream whole**, whoever takes it. -/
theorem Stream.step {s s' : State} {τ es : List Event} {l : Label} (hi : Stream s τ)
    (h : step s l = some (s', es)) : Stream s' (τ ++ es) := by
  cases move_of_step h with
  | sendPacket hs => exact hi.sendPacket hs
  | enableWrite _ => exact hi.same (modInterest_queue s true) (modInterest_writer s true)
  | dropConnection _ => exact hi.same rfl rfl
  | startWrite hw => exact hi.silent hi.queue_ok trivial (by rw [unsent, unsent, hw]; rfl)
  | takeChunk hw => exact hi.takeChunk hw
  | kernelSend hw hs => exact hi.kernelSend hw hs
  | consumeSent hw => exact hi.consumeSent hw
  | finishWrite hw => exact hi.finishWrite hw
  | disableWrite hw =>
    refine hi.silent ?_ trivial ?_
    · show (modInterest s false).queue.Ok
      rw [modInterest_queue]
      exact hi.queue_ok
    · show (modInterest s false).queue.active.drop 0 ++ (modInterest s false).queue.pending = _
      rw [modInterest_queue, unsent, hw]
      rfl
  | failConnection hw => exact hi.silent hi.queue_ok trivial (by rw [unsent, unsent, hw]; rfl)
  | assignEpollFd => exact hi.same rfl rfl
  | epollAdd _ _ _ => exact hi.same rfl rfl
  | disconnect => exact hi.same rfl rfl

/-! ## 4. Every run -/

theorem Stream.start {s : State} (hq : s.queue = .fresh) (hw : s.writer = .idle) :
    Stream s [] := by
  obtain ⟨hok, hact, hpend, -⟩ := SendQueue.fresh_spec
  refine ⟨by rw [hq]; exact hok, by rw [hw]; trivial, ?_⟩
  rw [unsent, hq, hact, hpend]
  simp [wireBytes, acceptedFrames]

/-- **Outgoing stream integrity.** From a new connection, whatever the threads, the
    kernel and the scheduler do: the bytes sent, followed by what the active and the
    pending buffer still hold, are the accepted frames, whole and in order. Between a
    `::send` and the `consume` that follows it, the active buffer still holds the bytes
    in flight. -/
theorem outgoing_stream {s₀ s : State} {ls : List Label} {τ : List Event}
    (hq : s₀.queue = .fresh) (hw : s₀.writer = .idle)
    (hr : run step s₀ ls = some (s, τ)) :
    wireBytes τ ++ s.queue.active.drop s.writer.inFlight ++ s.queue.pending
      = (acceptedFrames τ).flatten := by
  have h := run_inv Stream (fun hi hs => hi.step hs) (Stream.start hq hw) hr
  have hb := h.bytes
  rw [List.nil_append, unsent, ← List.append_assoc] at hb
  exact hb

/-- A heartbeat answer that leaves in two pieces, with a second one queued in between. -/
theorem outgoing_stream_heartbeats : ∃ s τ,
    run step (registered .fresh) [.sendPacket 0 2 [], .enableWrite 0, .startWrite, .takeChunk,
      .kernelSend (.took 4), .sendPacket 1 2 [], .consumeSent, .takeChunk,
      .kernelSend (.took 2)] = some (s, τ) ∧
    wireBytes τ ++ s.queue.active.drop s.writer.inFlight ++ s.queue.pending
      = (acceptedFrames τ).flatten := by
  obtain ⟨⟨s, τ⟩, hr⟩ := Option.isSome_iff_exists.mp (show (run step (registered .fresh)
    [.sendPacket 0 2 [], .enableWrite 0, .startWrite, .takeChunk, .kernelSend (.took 4),
      .sendPacket 1 2 [], .consumeSent, .takeChunk, .kernelSend (.took 2)]).isSome = true from rfl)
  exact ⟨s, τ, hr, outgoing_stream rfl rfl hr⟩

end Output
end EpollChat
