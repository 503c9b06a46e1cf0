import EpollChat.Proof.Conn.Stream

/-!
# Backpressure accounting

`pendingBytes` mirrors what the two buffers hold: `sendPacket` adds the length of the
frame it appends, `handleWrite` subtracts what the kernel took. The two sides agree as
long as the length that is added is the length that was appended, and `totalLength` is a
`uint32_t`: a body of `2 ^ 32 - 6` bytes or more is appended whole and counted modulo
`2 ^ 32` (`miscounted`). Apart from that the counter is exact in every state of every run,
it stays within the limit, and the branch that clamps it to 0 is dead
(`accounting_exact_iff`).
-/

namespace EpollChat

open Lib

/-! ## 1. The critical sections -/

namespace SendQueue

/-- The bytes the two buffers hold. -/
def held (q : SendQueue) : Nat := q.activeSendBuffer.remaining + q.pendingSendBuffer.remaining

theorem held_eq (q : SendQueue) : q.held = (q.active ++ q.pending).length := by
  rw [List.length_append, length_active, length_pending, held]

theorem length_frame (type : UInt16) (data : Bytes) :
    (frame type data).length = 6 + (encodeJsonToProto type data).length := by
  simp [frame]
  omega

/-- What `enqueue` does to the counter. -/
theorem enqueue_pendingBytes {q q' : SendQueue} {type : UInt16} {data : Bytes} {r : Enqueued}
    (h : q.enqueue type data = some (r, q')) :
    (r = .dropped ∧ q' = q ∧
      MAX_PENDING_SEND_BUFFER < (q.pendingBytes + totalLength (encodeJsonToProto type data)) % 2 ^ 64) ∨
    (r = .queued (!q.writeArmed) ∧
      q'.pendingBytes = (q.pendingBytes + totalLength (encodeJsonToProto type data)) % 2 ^ 64 ∧
      q'.pendingBytes ≤ MAX_PENDING_SEND_BUFFER) := by
  simp only [enqueue] at h
  split at h
  · exact absurd h (by simp)
  · split at h
    · next hlimit =>
      simp only [Option.some.injEq, Prod.mk.injEq] at h
      exact Or.inl ⟨h.1.symm, h.2.symm, hlimit⟩
    · next hlimit =>
      cases ha : appendFrame q.pendingSendBuffer q.heap type (encodeJsonToProto type data) with
      | none => rw [ha] at h; exact absurd h (by simp)
      | some p =>
        rw [ha] at h
        simp only [Option.some.injEq, Prod.mk.injEq] at h
        obtain ⟨rfl, rfl⟩ := h
        exact Or.inr ⟨rfl, rfl, Nat.le_of_not_lt hlimit⟩

theorem enqueue_held {q q' : SendQueue} {type : UInt16} {data : Bytes} {b : Bool} (hok : q.Ok)
    (h : q.enqueue type data = some (.queued b, q')) :
    q'.held = q.held + (6 + (encodeJsonToProto type data).length) := by
  rcases enqueue_cases hok h with ⟨hr, -⟩ | ⟨-, -, hact, hpend, -⟩
  · exact absurd hr (by simp)
  · rw [held_eq, held_eq, hact, hpend, ← List.append_assoc, List.length_append, length_frame]

theorem refill_pendingBytes (q : SendQueue) : q.refill.pendingBytes = q.pendingBytes := by
  unfold refill
  split <;> rfl

theorem takeChunk_snd (q : SendQueue) (flushed : Nat) : (q.takeChunk flushed).2 = q.refill := by
  simp only [takeChunk]
  split
  · rfl
  · split <;> rfl

theorem refill_held {q : SendQueue} (hok : q.Ok) : q.refill.held = q.held := by
  rw [held_eq, held_eq, (refill_spec hok).2.1]

theorem consumeSent_held {q : SendQueue} (hok : q.Ok) {n : Nat}
    (hn : n ≤ q.activeSendBuffer.remaining) : (q.consumeSent n).held = q.held - n := by
  obtain ⟨-, hact, hpend, -⟩ := consumeSent_spec hok hn
  rw [held_eq, held_eq, hact, hpend, List.length_append, List.length_append, List.length_drop,
    length_active]
  omega

theorem finishWrite_same (q : SendQueue) :
    q.finishWrite.2.pendingBytes = q.pendingBytes ∧ q.finishWrite.2.held = q.held := by
  rw [finishWrite_eq]
  split <;> exact ⟨rfl, rfl⟩

end SendQueue

/-! ## 2. The property and its condition -/

namespace Output

open Machine

/-- The counter is exact and within the limit, and `handleWrite` is not about to clamp it. -/
def Accounted (s : State) : Prop :=
  s.queue.pendingBytes = s.queue.activeSendBuffer.remaining + s.queue.pendingSendBuffer.remaining ∧
    s.queue.pendingBytes ≤ MAX_PENDING_SEND_BUFFER ∧
    ∀ flushed n, s.writer = .sent flushed n → n ≤ s.queue.pendingBytes

/-- A packet that passes the limit check has a length that a `uint32_t` holds. -/
def ShortBody (s : State) : Label → Prop
  | .sendPacket tid type data => (step s (.sendPacket tid type data)).isSome = true →
      (s.queue.pendingBytes + totalLength (encodeJsonToProto type data)) % 2 ^ 64
        ≤ MAX_PENDING_SEND_BUFFER → 6 + (encodeJsonToProto type data).length < 2 ^ 32
  | _ => True

instance (s : State) : DecidablePred (ShortBody s)
  | .sendPacket _ _ _ => inferInstanceAs (Decidable (_ → _ → _))
  | .enableWrite .. | .dropConnection .. | .startWrite | .takeChunk | .kernelSend ..
  | .consumeSent | .finishWrite | .disableWrite | .failConnection | .assignEpollFd | .epollAdd
  | .disconnect => isTrue trivial

theorem totalLength_of_short {body : Bytes} (h : 6 + body.length < 2 ^ 32) :
    totalLength body = 6 + body.length := by
  unfold totalLength
  omega

theorem totalLength_lt (body : Bytes) : totalLength body < 2 ^ 32 := Nat.mod_lt _ (by decide)

theorem sendPacket_queue {s s' : State} {tid : Nat} {type : UInt16} {data : Bytes} {es : List Event}
    (h : step s (.sendPacket tid type data) = some (s', es)) :
    ∃ r, s.queue.enqueue type data = some (r, s'.queue) := by
  obtain ⟨-, ⟨q, he, rfl, -⟩ | ⟨need, q, he, rfl, -⟩⟩ := sendPacket_cases h
  · exact ⟨_, he⟩
  · exact ⟨_, he⟩

/-- What one step can do to the queue: nothing, or one of the four critical sections. -/
theorem step_queue {s s' : State} {l : Label} {es : List Event} (h : step s l = some (s', es)) :
    (s'.queue = s.queue) ∨
    (∃ tid type data r, l = .sendPacket tid type data ∧
      s.queue.enqueue type data = some (r, s'.queue)) ∨
    (∃ flushed, s.writer = .loop flushed ∧ s'.queue = (s.queue.takeChunk flushed).2) ∨
    (∃ flushed n, s.writer = .sent flushed n ∧ s'.queue = s.queue.consumeSent n) ∨
    (s'.queue = s.queue.finishWrite.2) := by
  cases move_of_step h with
  | @sendPacket tid type data _ _ hs =>
    obtain ⟨r, he⟩ := sendPacket_queue hs
    exact Or.inr (Or.inl ⟨tid, type, data, r, rfl, he⟩)
  | @takeChunk flushed hw =>
    unfold takeChunk
    split
    · refine Or.inr (Or.inr (Or.inl ⟨flushed, hw, ?_⟩))
      split
      · next heq => rw [heq]
      · next heq => rw [heq]
    · exact Or.inl rfl
  | @consumeSent flushed n hw => exact Or.inr (Or.inr (Or.inr (Or.inl ⟨flushed, n, hw, rfl⟩)))
  | finishWrite _ => exact Or.inr (Or.inr (Or.inr (Or.inr rfl)))
  | kernelSend _ hs =>
    obtain ⟨w, rfl⟩ := kernelSend_writer hs
    exact Or.inl rfl
  | enableWrite _ => exact Or.inl (modInterest_queue s true)
  | disableWrite _ => exact Or.inl (modInterest_queue s false)
  | _ => exact Or.inl rfl

/-! ## 3. The invariant -/

/-- The buffers are well formed, and the counter is exact. -/
structure Balanced (s : State) : Prop where
  stream : ∃ τ, Stream s τ
  exact : s.queue.pendingBytes = s.queue.held
  limit : s.queue.pendingBytes ≤ MAX_PENDING_SEND_BUFFER

/-- What the kernel took is still in the active buffer, so the counter covers it. -/
theorem Balanced.accounted {s : State} (hi : Balanced s) : Accounted s := by
  refine ⟨hi.exact, hi.limit, ?_⟩
  intro flushed n hw
  obtain ⟨τ, hs⟩ := hi.stream
  have hfit := hs.fits
  rw [hw] at hfit
  rw [hi.exact, SendQueue.held]
  exact Nat.le_trans hfit (Nat.le_add_right _ _)

theorem Balanced.step {s s' : State} {l : Label} {es : List Event} (hi : Balanced s)
    (hshort : ShortBody s l) (h : step s l = some (s', es)) : Balanced s' := by
  obtain ⟨τ, hs⟩ := hi.stream
  have hs' : ∃ τ, Stream s' τ := ⟨τ ++ es, hs.step h⟩
  have hok := hs.queue_ok
  have hlim := hi.limit
  rcases step_queue h with hq | ⟨tid, type, data, r, rfl, he⟩ | ⟨flushed, -, hq⟩ |
    ⟨flushed, n, hw, hq⟩ | hq
  · exact ⟨hs', by rw [hq]; exact hi.exact, by rw [hq]; exact hi.limit⟩
  · rcases SendQueue.enqueue_pendingBytes he with ⟨-, hq, -⟩ | ⟨rfl, hcount, hmax⟩
    · exact ⟨hs', by rw [hq]; exact hi.exact, by rw [hq]; exact hi.limit⟩
    · refine ⟨hs', ?_, hmax⟩
      have hlen := hshort (by rw [h]; rfl) (hcount ▸ hmax)
      have htl := totalLength_of_short hlen
      unfold MAX_PENDING_SEND_BUFFER at hlim
      rw [hcount, SendQueue.enqueue_held hok he, htl, ← hi.exact]
      exact Nat.mod_eq_of_lt (by omega)
  · rw [SendQueue.takeChunk_snd] at hq
    refine ⟨hs', ?_, ?_⟩
    · rw [hq, SendQueue.refill_pendingBytes, SendQueue.refill_held hok]
      exact hi.exact
    · rw [hq, SendQueue.refill_pendingBytes]
      exact hi.limit
  · have hfit := hs.fits
    rw [hw] at hfit
    -- The kernel took no more than the active buffer holds, so the counter is not clamped.
    have hle : n ≤ s.queue.pendingBytes := hi.accounted.2.2 flushed n hw
    have hpb : (s.queue.consumeSent n).pendingBytes = s.queue.pendingBytes - n := if_pos hle
    refine ⟨hs', ?_, ?_⟩
    · rw [hq, hpb, SendQueue.consumeSent_held hok hfit, hi.exact]
    · rw [hq, hpb]
      exact Nat.le_trans (Nat.sub_le _ _) hi.limit
  · obtain ⟨hpb, hheld⟩ := s.queue.finishWrite_same
    exact ⟨hs', by rw [hq, hpb, hheld]; exact hi.exact, by rw [hq, hpb]; exact hi.limit⟩

/-- A long body that is queued leaves the counter short. -/
theorem Balanced.short_of_accounted {s : State} {l : Label} (hi : Balanced s)
    (hgood : ∀ s' es, Output.step s l = some (s', es) → Accounted s') : ShortBody s l := by
  cases l with
  | sendPacket tid type data =>
    intro hsome hlim
    obtain ⟨⟨s', es⟩, hstep⟩ := Option.isSome_iff_exists.mp hsome
    obtain ⟨τ, hs⟩ := hi.stream
    obtain ⟨r, he⟩ := sendPacket_queue hstep
    have hexact := (hgood s' es hstep).1
    rcases SendQueue.enqueue_pendingBytes he with ⟨-, -, hdrop⟩ | ⟨rfl, hcount, -⟩
    · exact absurd hlim (by omega)
    · have hheld : s'.queue.pendingBytes = s'.queue.held := hexact
      have htl := totalLength_lt (encodeJsonToProto type data)
      have hmax := hi.limit
      unfold MAX_PENDING_SEND_BUFFER at hmax
      rw [SendQueue.enqueue_held hs.queue_ok he, hcount, ← hi.exact,
        Nat.mod_eq_of_lt (by omega)] at hheld
      omega
  | _ => trivial

theorem Balanced.start {s : State} (hq : s.queue = .fresh) (hw : s.writer = .idle) : Balanced s := by
  refine ⟨⟨[], Stream.start hq hw⟩, ?_, ?_⟩
  · rw [hq]; rfl
  · rw [hq]; decide

/-! ## 4. Every run -/

/-- **Backpressure accounting is exact**, in every state of a run, exactly when no packet
    of the run is queued with a length that a `uint32_t` does not hold. -/
theorem accounting_exact_iff {s₀ : State} {ls : List Label} (hq : s₀.queue = .fresh)
    (hw : s₀.writer = .idle) : Always step Accounted s₀ ls ↔ Meets step ShortBody s₀ ls := by
  exact always_iff_meets Balanced (fun hi => hi.accounted) (fun hi hp hs => hi.step hp hs)
    (fun hi hgood => hi.short_of_accounted hgood) (Balanced.start hq hw)

/-- Two heartbeat answers, and a `::send` that takes part of the first. -/
theorem accounting_exact_heartbeats :
    Always step Accounted (registered .fresh) [.sendPacket 0 2 [], .enableWrite 0, .startWrite,
      .takeChunk, .kernelSend (.took 4), .sendPacket 1 2 [], .consumeSent, .takeChunk] := by
  exact (accounting_exact_iff rfl rfl).mpr (by decide)

/-! ## 5. A body that is miscounted -/

section Huge

-- The list itself is never evaluated: all that is used of it is its length.
variable {data : Bytes} (hlen : data.length = 2 ^ 32)

include hlen

theorem ne_nil_of_huge : data ≠ [] := by
  intro h
  rw [h] at hlen
  exact absurd hlen (by decide)

/-- A friend list is sent as it is. -/
theorem encode_huge : encodeJsonToProto 12 data = data := by
  unfold encodeJsonToProto
  rw [if_neg (ne_nil_of_huge hlen)]
  rfl

/-- Behind the six bytes of a header there is room for it. -/
theorem append_huge {b : PoolSendBuffer} {h : Heap} (hok : b.Ok h) (hpos : 0 < b.m_capacity)
    (hrem : b.remaining = 6) : (b.append h data).isSome = true := by
  refine Option.isSome_iff_exists.mpr (PoolSendBuffer.append_isSome hok hpos ?_)
  rw [hrem, hlen]
  decide

theorem enqueue_huge : ∃ q, SendQueue.fresh.enqueue 12 data = some (.queued true, q) := by
  have happ : (SendQueue.appendFrame SendQueue.fresh.pendingSendBuffer SendQueue.fresh.heap 12
      data).isSome = true := by
    simp only [SendQueue.appendFrame, if_neg (ne_nil_of_huge hlen), totalLength, hlen]
    exact append_huge hlen ⟨by decide, by decide, by decide, by decide⟩ (by decide) rfl
  obtain ⟨⟨b, h⟩, hp⟩ := Option.isSome_iff_exists.mp happ
  simp only [SendQueue.enqueue, encode_huge hlen]
  rw [if_neg (by rw [hlen]; decide), if_neg (by rw [totalLength, hlen]; decide), hp]
  exact ⟨_, rfl⟩

theorem huge_miscounted : ∃ s τ,
    run step (registered .fresh) [.sendPacket 0 12 data] = some (s, τ) ∧ ¬ Accounted s := by
  obtain ⟨q, hq⟩ := enqueue_huge hlen
  have hstep : step (registered .fresh) (.sendPacket 0 12 data)
      = some (setSender { registered .fresh with queue := q } 0 .enabling, [.accepted 0 12 data]) := by
    simp only [step, sendPacket, registered, hq]
    rfl
  refine ⟨_, _, by rw [run, hstep]; rfl, ?_⟩
  intro hacc
  have hexact : q.pendingBytes = q.held := hacc.1
  have hheld := SendQueue.enqueue_held SendQueue.fresh_spec.1 hq
  rcases SendQueue.enqueue_pendingBytes hq with ⟨hr, -⟩ | ⟨-, hcount, -⟩
  · exact absurd hr (by simp)
  · rw [encode_huge hlen, totalLength, hlen] at hcount
    rw [encode_huge hlen, hlen, ← hexact, hcount] at hheld
    exact absurd hheld (by decide)

end Huge

/-- **Miscounted.** A friend list of `2 ^ 32` bytes is queued, and 6 bytes are counted. -/
theorem miscounted : ∃ s τ,
    run step (registered .fresh) [.sendPacket 0 12 (List.replicate (2 ^ 32) 32)] = some (s, τ) ∧
      ¬ Accounted s :=
  huge_miscounted List.length_replicate

end Output
end EpollChat
