import EpollChat.Conn.SendQueue
import EpollChat.Proof.Buffer.Send

/-!
# What the critical sections do to the two queues

`active` and `pending` are the contents of the two buffers. Each section has one lemma,
in terms of those two byte strings. The lemma of `enqueue` also says what it does *not*
touch: the block the reactor thread may be sending from.
-/

namespace EpollChat

open Lib

namespace SendQueue

/-- Both buffers are well formed and their blocks are two. -/
structure Ok (q : SendQueue) : Prop where
  pending_ok : q.pendingSendBuffer.Ok q.heap
  active_ok : q.activeSendBuffer.Ok q.heap
  distinct : q.activeSendBuffer.m_data ≠ q.pendingSendBuffer.m_data

theorem length_active (q : SendQueue) : q.active.length = q.activeSendBuffer.remaining :=
  PoolSendBuffer.length_content _ _

theorem length_pending (q : SendQueue) : q.pending.length = q.pendingSendBuffer.remaining :=
  PoolSendBuffer.length_content _ _

theorem create_spec {q : SendQueue} (h : create = some q) :
    q.Ok ∧ q.active = [] ∧ q.pending = [] ∧ q.writeArmed = false := by
  unfold create at h
  cases hp : PoolSendBuffer.create {} 4096 with
  | none => rw [hp] at h; exact absurd h (by simp)
  | some p =>
    obtain ⟨pending, h₁⟩ := p
    rw [hp] at h
    dsimp only at h
    cases ha : PoolSendBuffer.create h₁ 4096 with
    | none => rw [ha] at h; exact absurd h (by simp)
    | some p' =>
      obtain ⟨active, h₂⟩ := p'
      rw [ha] at h
      simp only [Option.some.injEq] at h
      subst h
      obtain ⟨hok₁, hc₁, hd₁, hn₁, hb₁⟩ := PoolSendBuffer.create_spec hp
      obtain ⟨hok₂, hc₂, hd₂, hn₂, hb₂⟩ := PoolSendBuffer.create_spec ha
      have hpend : pending.content h₂ = [] := by
        rw [PoolSendBuffer.content_congr (show h₂.bytes pending.m_data = h₁.bytes pending.m_data by
          rw [hb₂]), hc₁]
      have hnext : h₁.next ≤ h₂.next := by omega
      refine ⟨⟨hok₁.mono hnext, hok₂, ?_⟩, hc₂, hpend, rfl⟩
      show active.m_data ≠ pending.m_data
      have hlt := hok₁.data_lt
      omega

theorem fresh_spec : fresh.Ok ∧ fresh.active = [] ∧ fresh.pending = [] ∧ fresh.writeArmed = false :=
  create_spec (Option.some_get rfl).symm

/-! ## 1. `sendPacket` -/

theorem appendFrame_spec {b b' : PoolSendBuffer} {h h' : Heap} (hok : b.Ok h) {type : UInt16}
    {body : Bytes} (hlen : body.length ≤ stringMax)
    (ha : appendFrame b h type body = some (b', h')) :
    b'.Ok h' ∧ b'.content h' = b.content h ++ (be32 (totalLength body) ++ (be16 type ++ body)) ∧
      PoolSendBuffer.Frame b b' h h' := by
  unfold appendFrame at ha
  cases h₁ : b.append h (be32 (totalLength body)) with
  | none => rw [h₁] at ha; exact absurd ha (by simp)
  | some p₁ =>
    obtain ⟨b₁, h₁'⟩ := p₁
    rw [h₁] at ha
    dsimp only at ha
    obtain ⟨hok₁, hc₁, hf₁⟩ := PoolSendBuffer.append_spec hok (by simp) h₁
    cases h₂ : b₁.append h₁' (be16 type) with
    | none => rw [h₂] at ha; exact absurd ha (by simp)
    | some p₂ =>
      obtain ⟨b₂, h₂'⟩ := p₂
      rw [h₂] at ha
      dsimp only at ha
      obtain ⟨hok₂, hc₂, hf₂⟩ := PoolSendBuffer.append_spec hok₁ (by simp) h₂
      split at ha
      · next hnil =>
        simp only [Option.some.injEq, Prod.mk.injEq] at ha
        obtain ⟨rfl, rfl⟩ := ha
        refine ⟨hok₂, ?_, hf₁.trans hf₂⟩
        rw [hc₂, hc₁, hnil]
        simp
      · unfold stringMax at hlen
        obtain ⟨hok₃, hc₃, hf₃⟩ := PoolSendBuffer.append_spec hok₂ (by omega) ha
        refine ⟨hok₃, ?_, (hf₁.trans hf₂).trans hf₃⟩
        rw [hc₃, hc₂, hc₁]
        simp

/-- `enqueue` drops the packet whole, or queues it whole. -/
theorem enqueue_cases {q q' : SendQueue} {type : UInt16} {data : Bytes} {r : Enqueued}
    (hok : q.Ok) (h : q.enqueue type data = some (r, q')) :
    (r = .dropped ∧ q' = q) ∨
    (r = .queued (!q.writeArmed) ∧ q'.Ok ∧ q'.active = q.active ∧
      q'.pending = q.pending ++ frame type data ∧ q'.activeSendBuffer = q.activeSendBuffer ∧
      q'.heap.bytes q.activeSendBuffer.m_data = q.heap.bytes q.activeSendBuffer.m_data ∧
      q'.writeArmed = true) := by
  simp only [enqueue] at h
  split at h
  · exact absurd h (by simp)
  · next hlen =>
    split at h
    · simp only [Option.some.injEq, Prod.mk.injEq] at h
      exact Or.inl ⟨h.1.symm, h.2.symm⟩
    · cases ha : appendFrame q.pendingSendBuffer q.heap type (encodeJsonToProto type data) with
      | none => rw [ha] at h; exact absurd h (by simp)
      | some p =>
        obtain ⟨b, h'⟩ := p
        rw [ha] at h
        simp only [Option.some.injEq, Prod.mk.injEq] at h
        obtain ⟨rfl, rfl⟩ := h
        obtain ⟨hb, hc, hf⟩ := appendFrame_spec hok.pending_ok (by omega) ha
        have hne := hok.distinct
        have hlt := hok.active_ok.data_lt
        have hbytes := hf.bytes q.activeSendBuffer.m_data hlt hne
        refine Or.inr ⟨rfl, ⟨hb, hok.active_ok.mono hf.next_le, ?_⟩,
          PoolSendBuffer.content_congr hbytes, hc, rfl, hbytes, rfl⟩
        show q.activeSendBuffer.m_data ≠ b.m_data
        rcases hf.data with h | h
        · rw [h]; exact hne
        · omega

/-! ## 2. `handleWrite` -/

/-- Refilling moves no byte: it only starts on the second half of the queue. -/
theorem refill_spec {q : SendQueue} (hok : q.Ok) :
    q.refill.Ok ∧ q.refill.active ++ q.refill.pending = q.active ++ q.pending ∧
      q.refill.writeArmed = q.writeArmed := by
  unfold refill
  split
  · next h =>
    refine ⟨⟨hok.active_ok, hok.pending_ok, hok.distinct.symm⟩, ?_, rfl⟩
    have ha : q.active = [] := PoolSendBuffer.content_eq_nil.mpr h.1
    show q.pending ++ q.active = q.active ++ q.pending
    rw [ha]
    simp
  · exact ⟨hok, rfl, rfl⟩

/-- `takeChunk` gives out the head of the active buffer, or finds both buffers empty or
    the budget used up. -/
theorem takeChunk_spec {q q' : SendQueue} {flushed : Nat} {r : Option ((Nat × Nat) × Nat)}
    (hok : q.Ok) (h : q.takeChunk flushed = (r, q')) :
    q'.Ok ∧ q'.active ++ q'.pending = q.active ++ q.pending ∧ q'.writeArmed = q.writeArmed ∧
      ∀ ptr canSend, r = some (ptr, canSend) →
        ptr = q'.activeSendBuffer.currentData ∧ canSend ≤ q'.activeSendBuffer.remaining := by
  obtain ⟨hrok, hrcat, hrarm⟩ := refill_spec hok
  simp only [takeChunk] at h
  split at h
  · simp only [Prod.mk.injEq] at h
    obtain ⟨rfl, rfl⟩ := h
    exact ⟨hrok, hrcat, hrarm, fun _ _ hr => absurd hr (by simp)⟩
  · split at h
    · simp only [Prod.mk.injEq] at h
      obtain ⟨rfl, rfl⟩ := h
      exact ⟨hrok, hrcat, hrarm, fun _ _ hr => absurd hr (by simp)⟩
    · simp only [Prod.mk.injEq] at h
      obtain ⟨rfl, rfl⟩ := h
      refine ⟨hrok, hrcat, hrarm, ?_⟩
      intro ptr canSend hr
      simp only [Option.some.injEq, Prod.mk.injEq] at hr
      obtain ⟨rfl, rfl⟩ := hr
      exact ⟨rfl, Nat.min_le_left _ _⟩

/-- What the kernel reads through an up-to-date pointer. -/
theorem readAt_currentData (q : SendQueue) {n : Nat} (h : n ≤ q.activeSendBuffer.remaining) :
    q.readAt q.activeSendBuffer.currentData n = q.active.take n :=
  (take_slice _ _ _ _ h).symm

theorem consumeSent_spec {q : SendQueue} (hok : q.Ok) {n : Nat}
    (hn : n ≤ q.activeSendBuffer.remaining) :
    (q.consumeSent n).Ok ∧ (q.consumeSent n).active = q.active.drop n ∧
      (q.consumeSent n).pending = q.pending ∧ (q.consumeSent n).writeArmed = q.writeArmed := by
  obtain ⟨hc, hdrop, hd⟩ := PoolSendBuffer.consume_spec hok.active_ok (hok.active_ok.consume_fits hn)
  refine ⟨⟨hok.pending_ok, hc, ?_⟩, hdrop, rfl, rfl⟩
  show (q.activeSendBuffer.consume n).m_data ≠ q.pendingSendBuffer.m_data
  rw [hd]
  exact hok.distinct

theorem isEmpty_iff (q : SendQueue) : q.isEmpty = true ↔ q.active = [] ∧ q.pending = [] := by
  simp [isEmpty, active, pending, PoolSendBuffer.content_eq_nil]

/-- The re-check of `finishWrite` cannot disagree with the check: both are made under one
    lock. -/
theorem finishWrite_eq (q : SendQueue) :
    q.finishWrite = if q.isEmpty then (true, { q with writeArmed := false }) else (false, q) := by
  unfold finishWrite
  split
  · next h =>
    have h' : SendQueue.isEmpty { q with writeArmed := false } = true := h
    simp [h']
  · rfl

end SendQueue

end EpollChat
