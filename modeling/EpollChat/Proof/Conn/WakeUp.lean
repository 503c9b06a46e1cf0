import EpollChat.Proof.Conn.Stream

/-!
# Write wake-ups

`writeArmed` says that `EPOLLOUT` is asked for. It changes under `sendMutex`; the
`epoll_ctl` that makes it true follows after the lock is released, in `sendPacket` to
switch on and in `handleWrite` to switch off. Nothing orders the two calls: a sender that
arms the flag right after `handleWrite` has cleared it may get its `EPOLLOUT` in *before*
`handleWrite` takes it out again (`overtaken`), and the connection is silent from then
on.

That order is the only way to lose a wake-up. `NotOvertaken` rules it out, and in every
run that meets it the flag and the interest set agree whenever no thread is between its
critical section and its `epoll_ctl` (`no_lost_wake_up`).
-/

namespace EpollChat
namespace Output

open Lib Machine

/-! ## 1. Side conditions and the property -/

/-- epoll reports `EPOLLOUT` only for an interest set that contains it, and only the
    reactor thread itself takes it out: so `handleWrite` is called with the bit set, or on
    a connection closed meanwhile. -/
def EpollReports (s : State) : Label → Prop
  | .startWrite => s.interest = some true ∨ s.disconnected = true
  | _ => True

/-- No sender switches `EPOLLOUT` on while `handleWrite` is about to switch it off. -/
def NotOvertaken (s : State) : Label → Prop
  | .enableWrite _ => s.writer ≠ .disabling
  | _ => True

instance (s : State) : DecidablePred (EpollReports s)
  | .startWrite => inferInstanceAs (Decidable (_ ∨ _))
  | .sendPacket .. | .enableWrite .. | .dropConnection .. | .takeChunk | .kernelSend ..
  | .consumeSent | .finishWrite | .disableWrite | .failConnection | .assignEpollFd | .epollAdd
  | .disconnect => isTrue trivial

instance (s : State) : DecidablePred (NotOvertaken s)
  | .enableWrite _ => inferInstanceAs (Decidable (_ ≠ _))
  | .sendPacket .. | .dropConnection .. | .startWrite | .takeChunk | .kernelSend ..
  | .consumeSent | .finishWrite | .disableWrite | .failConnection | .assignEpollFd | .epollAdd
  | .disconnect => isTrue trivial

/-- No thread is between its critical section and its `epoll_ctl` call. -/
def Settled (s : State) : Prop := s.writer ≠ .disabling ∧ ∀ tid, s.senders tid ≠ .enabling

/-- Unsent bytes are waited for, and the flag tells the truth. -/
def Awake (s : State) : Prop :=
  (s.queue.active ≠ [] ∨ s.queue.pending ≠ [] → s.interest = some true) ∧
    (s.queue.writeArmed = true ↔ s.interest = some true)

/-! ## 2. The invariant -/

def NoEnabler (f : Nat → SenderPc) : Prop := ∀ tid, f tid ≠ .enabling

def OneEnabler (f : Nat → SenderPc) : Prop :=
  ∃ tid, f tid = .enabling ∧ ∀ tid', f tid' = .enabling → tid' = tid

/-- How the flag, the interest set and the senders stand, by what `handleWrite` is doing.
    While it runs, the flag is set, so no sender arms it. -/
def Phase (f : Nat → SenderPc) (armed out : Bool) : WriterPc → Prop
  | .idle => (NoEnabler f ∧ armed = out) ∨ (OneEnabler f ∧ armed = true ∧ out = false)
  | .disabling => out = true ∧ ((armed = false ∧ NoEnabler f) ∨ (armed = true ∧ OneEnabler f))
  | _ => out = true ∧ armed = true ∧ NoEnabler f

structure Wake (s : State) : Prop where
  epollFd : s.reactorEpollFd = true
  data : s.queue.active ≠ [] ∨ s.queue.pending ≠ [] → s.queue.writeArmed = true
  phase : ∃ out, s.interest = some out ∧ Phase s.senders s.queue.writeArmed out s.writer

/-- What is kept: the stream, and the wake-up invariant unless the connection is gone. -/
def WakeInv (s : State) (τ : List Event) : Prop := Stream s τ ∧ (s.disconnected = true ∨ Wake s)

theorem Wake.awake {s : State} (h : Wake s) (hs : Settled s) : Awake s := by
  obtain ⟨out, hout, hp⟩ := h.phase
  have hsame : s.queue.writeArmed = out := by
    cases hw : s.writer with
    | disabling => exact absurd hw hs.1
    | idle =>
      rw [hw] at hp
      rcases hp with ⟨-, h⟩ | ⟨⟨tid, ht, -⟩, -⟩
      · exact h
      · exact absurd ht (hs.2 tid)
    | loop f => rw [hw] at hp; exact hp.2.1.trans hp.1.symm
    | sending f p c => rw [hw] at hp; exact hp.2.1.trans hp.1.symm
    | sent f n => rw [hw] at hp; exact hp.2.1.trans hp.1.symm
    | finishing => rw [hw] at hp; exact hp.2.1.trans hp.1.symm
    | failing => rw [hw] at hp; exact hp.2.1.trans hp.1.symm
  refine ⟨fun hd => ?_, ?_⟩
  · rw [hout, ← hsame, h.data hd]
  · rw [hout, hsame]
    simp

/-! ## 3. The senders -/

theorem NoEnabler.update {f : Nat → SenderPc} (h : NoEnabler f) {tid : Nat} {pc : SenderPc}
    (hpc : pc ≠ .enabling) : NoEnabler (Function.update f tid pc) := by
  intro t
  by_cases ht : t = tid
  · rw [ht, Function.update_self]; exact hpc
  · rw [Function.update_of_ne ht]; exact h t

theorem OneEnabler.update {f : Nat → SenderPc} (h : OneEnabler f) {tid : Nat} {pc : SenderPc}
    (hidle : f tid ≠ .enabling) (hpc : pc ≠ .enabling) : OneEnabler (Function.update f tid pc) := by
  obtain ⟨t, ht, huniq⟩ := h
  have hne : t ≠ tid := fun h => hidle (h ▸ ht)
  refine ⟨t, by rw [Function.update_of_ne hne]; exact ht, ?_⟩
  intro t' ht'
  by_cases h : t' = tid
  · rw [h, Function.update_self] at ht'; exact absurd ht' hpc
  · rw [Function.update_of_ne h] at ht'; exact huniq t' ht'

theorem NoEnabler.arm {f : Nat → SenderPc} (h : NoEnabler f) (tid : Nat) :
    OneEnabler (Function.update f tid .enabling) := by
  refine ⟨tid, Function.update_self .., ?_⟩
  intro t' ht'
  by_contra hne
  rw [Function.update_of_ne hne] at ht'
  exact h t' ht'

theorem OneEnabler.disarm {f : Nat → SenderPc} (h : OneEnabler f) {tid : Nat}
    (ht : f tid = .enabling) : NoEnabler (Function.update f tid .idle) := by
  obtain ⟨t, -, huniq⟩ := h
  intro t' ht'
  by_cases hne : t' = tid
  · rw [hne, Function.update_self] at ht'; exact absurd ht' (by simp)
  · rw [Function.update_of_ne hne] at ht'
    exact hne ((huniq t' ht').trans (huniq tid ht).symm)

/-- A sender that is not enabling changes its place without disturbing the phase. -/
theorem Phase.update {f : Nat → SenderPc} {armed out : Bool} {w : WriterPc}
    (h : Phase f armed out w) {tid : Nat} {pc : SenderPc} (hidle : f tid ≠ .enabling)
    (hpc : pc ≠ .enabling) : Phase (Function.update f tid pc) armed out w := by
  cases w with
  | idle =>
    rcases h with ⟨h, he⟩ | ⟨h, he⟩
    · exact Or.inl ⟨h.update hpc, he⟩
    · exact Or.inr ⟨h.update hidle hpc, he⟩
  | disabling =>
    obtain ⟨ho, ⟨ha, h⟩ | ⟨ha, h⟩⟩ := h
    · exact ⟨ho, Or.inl ⟨ha, h.update hpc⟩⟩
    · exact ⟨ho, Or.inr ⟨ha, h.update hidle hpc⟩⟩
  | loop fl => exact ⟨h.1, h.2.1, h.2.2.update hpc⟩
  | sending fl p c => exact ⟨h.1, h.2.1, h.2.2.update hpc⟩
  | sent fl n => exact ⟨h.1, h.2.1, h.2.2.update hpc⟩
  | finishing => exact ⟨h.1, h.2.1, h.2.2.update hpc⟩
  | failing => exact ⟨h.1, h.2.1, h.2.2.update hpc⟩

/-- Arming the flag: there was no enabler, and now there is one. -/
theorem Phase.arm {f : Nat → SenderPc} {out : Bool} {w : WriterPc} (h : Phase f false out w)
    (tid : Nat) : Phase (Function.update f tid .enabling) true out w := by
  cases w with
  | idle =>
    rcases h with ⟨h, he⟩ | ⟨-, he, -⟩
    · exact Or.inr ⟨h.arm tid, rfl, he.symm⟩
    · exact absurd he (by simp)
  | disabling =>
    obtain ⟨ho, ⟨-, h⟩ | ⟨ha, -⟩⟩ := h
    · exact ⟨ho, Or.inr ⟨rfl, h.arm tid⟩⟩
    · exact absurd ha (by simp)
  | loop fl => exact absurd h.2.1 (by simp)
  | sending fl p c => exact absurd h.2.1 (by simp)
  | sent fl n => exact absurd h.2.1 (by simp)
  | finishing => exact absurd h.2.1 (by simp)
  | failing => exact absurd h.2.1 (by simp)

/-! ## 4. One step -/

theorem Wake.sendPacket {s s' : State} {τ es : List Event} {tid : Nat} {type : UInt16}
    {data : Bytes} (hi : Stream s τ) (hwk : Wake s)
    (h : sendPacket s tid type data = some (s', es)) : Wake s' := by
  obtain ⟨out, hout, hp⟩ := hwk.phase
  obtain ⟨hidle, ⟨q, he, rfl, rfl⟩ | ⟨need, q, he, rfl, rfl⟩⟩ := sendPacket_cases h
  · have hidle' : s.senders tid ≠ .enabling := by rw [hidle]; simp
    rcases SendQueue.enqueue_cases hi.queue_ok he with ⟨-, rfl⟩ | ⟨hr, -⟩
    · exact ⟨hwk.epollFd, hwk.data, out, hout, hp.update hidle' (by simp)⟩
    · exact absurd hr (by simp)
  · have hidle' : s.senders tid ≠ .enabling := by rw [hidle]; simp
    rcases SendQueue.enqueue_cases hi.queue_ok he with ⟨hr, -⟩ | ⟨hr, -, -, -, -, -, harm⟩
    · exact absurd hr (by simp)
    · refine ⟨hwk.epollFd, fun _ => harm, out, hout, ?_⟩
      show Phase (Function.update s.senders tid (if need then .enabling else .idle)) q.writeArmed out
        s.writer
      rw [harm, show need = !s.queue.writeArmed by simpa using hr]
      cases hold : s.queue.writeArmed with
      | true => rw [hold] at hp; exact hp.update hidle' (by simp)
      | false => rw [hold] at hp; exact hp.arm tid

/-- Running steps of `handleWrite` keep the flag, so they keep the phase. -/
theorem Wake.running {s s' : State} (hwk : Wake s) (hep : s'.reactorEpollFd = s.reactorEpollFd)
    (hin : s'.interest = s.interest) (hse : s'.senders = s.senders)
    (harm : s'.queue.writeArmed = s.queue.writeArmed)
    (hrun : ∀ out, s.interest = some out → Phase s.senders s.queue.writeArmed out s.writer →
      s.queue.writeArmed = true ∧ Phase s.senders s.queue.writeArmed out s'.writer) : Wake s' := by
  obtain ⟨out, hout, hp⟩ := hwk.phase
  obtain ⟨ha, hp'⟩ := hrun out hout hp
  refine ⟨by rw [hep]; exact hwk.epollFd, fun _ => by rw [harm]; exact ha, out, ?_, ?_⟩
  · rw [hin]; exact hout
  · rw [hse, harm]; exact hp'

theorem takeChunk_shared (s : State) (flushed : Nat) :
    (takeChunk s flushed).reactorEpollFd = s.reactorEpollFd ∧
      (takeChunk s flushed).interest = s.interest ∧ (takeChunk s flushed).senders = s.senders ∧
      (takeChunk s flushed).disconnected = s.disconnected := by
  unfold takeChunk
  split
  · split <;> exact ⟨rfl, rfl, rfl, rfl⟩
  · exact ⟨rfl, rfl, rfl, rfl⟩

theorem Wake.takeChunk {s : State} {τ : List Event} {flushed : Nat} (hi : Stream s τ)
    (hwk : Wake s) (hw : s.writer = .loop flushed) : Wake (takeChunk s flushed) := by
  obtain ⟨hep, hin, hse, -⟩ := takeChunk_shared s flushed
  have harm : (Output.takeChunk s flushed).queue.writeArmed = s.queue.writeArmed ∧
      ((Output.takeChunk s flushed).writer = .finishing ∨
        ∃ p c, (Output.takeChunk s flushed).writer = .sending flushed p c) := by
    unfold Output.takeChunk
    split
    · cases ht : s.queue.takeChunk flushed with
      | mk r q =>
        obtain ⟨-, -, harm, -⟩ := SendQueue.takeChunk_spec hi.queue_ok ht
        cases r with
        | none => exact ⟨harm, Or.inl rfl⟩
        | some p => exact ⟨harm, Or.inr ⟨p.1, p.2, rfl⟩⟩
    · exact ⟨rfl, Or.inl rfl⟩
  refine hwk.running hep hin hse harm.1 ?_
  intro out _ hp
  rw [hw] at hp
  rcases harm.2 with h | ⟨p, c, h⟩
  · rw [h]; exact ⟨hp.2.1, hp⟩
  · rw [h]; exact ⟨hp.2.1, hp⟩

theorem Wake.kernelSend {s s' : State} {es : List Event} {flushed canSend : Nat}
    {ptr : Nat × Nat} {r : SendResult} (hwk : Wake s)
    (hw : s.writer = .sending flushed ptr canSend)
    (h : kernelSend s flushed ptr canSend r = some (s', es)) : Wake s' := by
  have hsend : ∀ out, Phase s.senders s.queue.writeArmed out s.writer →
      out = true ∧ s.queue.writeArmed = true ∧ NoEnabler s.senders := by
    intro out hp
    rw [hw] at hp
    exact hp
  cases r with
  | took n =>
    simp only [Output.kernelSend] at h
    split at h
    · simp only [Option.some.injEq, Prod.mk.injEq] at h
      obtain ⟨rfl, rfl⟩ := h
      exact hwk.running rfl rfl rfl rfl fun out _ hp => ⟨(hsend out hp).2.1, hsend out hp⟩
    · exact absurd h (by simp)
  | wouldBlock =>
    simp only [Output.kernelSend, Option.some.injEq, Prod.mk.injEq] at h
    obtain ⟨rfl, rfl⟩ := h
    refine hwk.running rfl rfl rfl rfl fun out _ hp => ⟨(hsend out hp).2.1, ?_⟩
    obtain ⟨ho, ha, hn⟩ := hsend out hp
    exact Or.inl ⟨hn, ha.trans ho.symm⟩
  | failed =>
    simp only [Output.kernelSend, Option.some.injEq, Prod.mk.injEq] at h
    obtain ⟨rfl, rfl⟩ := h
    exact hwk.running rfl rfl rfl rfl fun out _ hp => ⟨(hsend out hp).2.1, hsend out hp⟩

theorem Wake.finishWrite {s : State} (hwk : Wake s) (hw : s.writer = .finishing) :
    Wake (finishWrite s) := by
  obtain ⟨out, hout, hp⟩ := hwk.phase
  rw [hw] at hp
  obtain ⟨ho, ha, hn⟩ := hp
  unfold Output.finishWrite
  rw [SendQueue.finishWrite_eq]
  cases he : s.queue.isEmpty with
  | true =>
    obtain ⟨hact, hpend⟩ := (SendQueue.isEmpty_iff s.queue).mp he
    refine ⟨hwk.epollFd, ?_, out, hout, ho, Or.inl ⟨rfl, hn⟩⟩
    rintro (h | h)
    · exact absurd hact h
    · exact absurd hpend h
  | false => exact ⟨hwk.epollFd, hwk.data, out, hout, Or.inl ⟨hn, ha.trans ho.symm⟩⟩

theorem modInterest_of_epollFd {s : State} (h : s.reactorEpollFd = true) {o out : Bool}
    (hin : s.interest = some o) : modInterest s out = { s with interest := some out } := by
  rw [modInterest, if_pos h, hin]
  rfl

theorem Wake.enableWrite {s : State} {tid : Nat} (hwk : Wake s) (ht : s.senders tid = .enabling)
    (hno : s.writer ≠ .disabling) : Wake (setSender (modInterest s true) tid .idle) := by
  obtain ⟨out, hout, hp⟩ := hwk.phase
  rw [modInterest_of_epollFd hwk.epollFd hout]
  cases hw : s.writer with
  | idle =>
    rw [hw] at hp
    rcases hp with ⟨hn, -⟩ | ⟨hone, ha, -⟩
    · exact absurd ht (hn tid)
    · exact ⟨hwk.epollFd, fun _ => ha, true, rfl, Or.inl ⟨hone.disarm ht, ha⟩⟩
  | disabling => exact absurd hw hno
  | loop f => rw [hw] at hp; exact absurd ht (hp.2.2 tid)
  | sending f p c => rw [hw] at hp; exact absurd ht (hp.2.2 tid)
  | sent f n => rw [hw] at hp; exact absurd ht (hp.2.2 tid)
  | finishing => rw [hw] at hp; exact absurd ht (hp.2.2 tid)
  | failing => rw [hw] at hp; exact absurd ht (hp.2.2 tid)

theorem Wake.disableWrite {s : State} (hwk : Wake s) (hw : s.writer = .disabling) :
    Wake { modInterest s false with writer := .idle } := by
  obtain ⟨out, hout, hp⟩ := hwk.phase
  rw [hw] at hp
  rw [modInterest_of_epollFd hwk.epollFd hout]
  refine ⟨hwk.epollFd, hwk.data, false, rfl, ?_⟩
  obtain ⟨-, ⟨ha, hn⟩ | ⟨ha, hone⟩⟩ := hp
  · exact Or.inl ⟨hn, ha⟩
  · exact Or.inr ⟨hone, ha, rfl⟩

/-- The half of the invariant that `Stream` does not give, one step on. -/
theorem Wake.step {s s' : State} {τ es : List Event} {l : Label} (hi : Stream s τ)
    (hwk : Wake s) (hlive : s.disconnected = false) (hrep : EpollReports s l)
    (hno : NotOvertaken s l) (h : step s l = some (s', es)) :
    s'.disconnected = true ∨ Wake s' := by
  cases move_of_step h with
  | sendPacket hs => exact Or.inr (hwk.sendPacket hi hs)
  | enableWrite ht => exact Or.inr (hwk.enableWrite ht hno)
  | dropConnection _ => exact Or.inl rfl
  | startWrite hw =>
    rcases hrep with hrep | hrep
    · refine Or.inr (hwk.running rfl rfl rfl rfl fun out hout hp => ?_)
      -- the event says `EPOLLOUT` is set, which leaves only the settled case
      rw [hrep] at hout
      rw [hw] at hp
      obtain rfl := Option.some.inj hout
      rcases hp with ⟨hn, ha⟩ | ⟨-, -, ho⟩
      · exact ⟨ha, rfl, ha, hn⟩
      · exact absurd ho (by simp)
    · rw [hrep] at hlive; exact absurd hlive (by simp)
  | takeChunk hw => exact Or.inr (hwk.takeChunk hi hw)
  | kernelSend hw hs => exact Or.inr (hwk.kernelSend hw hs)
  | consumeSent hw =>
    refine Or.inr (hwk.running rfl rfl rfl rfl fun out _ hp => ?_)
    rw [hw] at hp
    exact ⟨hp.2.1, hp⟩
  | finishWrite hw => exact Or.inr (hwk.finishWrite hw)
  | disableWrite hw => exact Or.inr (hwk.disableWrite hw)
  | failConnection _ => exact Or.inl rfl
  | assignEpollFd => exact Or.inr ⟨rfl, hwk.data, hwk.phase⟩
  | epollAdd _ hnone _ =>
    obtain ⟨out, hout, -⟩ := hwk.phase
    rw [hout] at hnone
    exact absurd hnone (by simp)
  | disconnect => exact Or.inl rfl

theorem modInterest_disconnected (s : State) (out : Bool) :
    (modInterest s out).disconnected = s.disconnected := by
  unfold modInterest
  split <;> rfl

/-- Nothing reconnects. -/
theorem disconnected_mono {s s' : State} {es : List Event} {l : Label}
    (h : step s l = some (s', es)) (hd : s.disconnected = true) : s'.disconnected = true := by
  cases move_of_step h with
  | sendPacket hs =>
    obtain ⟨-, ⟨q, -, rfl, -⟩ | ⟨need, q, -, rfl, -⟩⟩ := sendPacket_cases hs
    · exact hd
    · exact hd
  | enableWrite _ => exact (modInterest_disconnected s true).trans hd
  | takeChunk _ => exact (takeChunk_shared s _).2.2.2.trans hd
  | kernelSend _ hs =>
    obtain ⟨w, rfl⟩ := kernelSend_writer hs
    exact hd
  | disableWrite _ => exact (modInterest_disconnected s false).trans hd
  | dropConnection _ => rfl
  | failConnection _ => rfl
  | disconnect => rfl
  | _ => exact hd

/-! ## 5. The order that loses a wake-up -/

/-- A heartbeat answer is sent and flushed; `handleWrite` has cleared the flag. -/
def flushed : List Label :=
  [.sendPacket 0 2 [], .enableWrite 0, .startWrite, .takeChunk, .kernelSend (.took 6), .consumeSent,
    .takeChunk, .finishWrite]

/-- Two senders that each armed the flag and switched `EPOLLOUT` on. -/
theorem senders_back : NoEnabler (Function.update (Function.update (Function.update
    (Function.update (fun _ => .idle) 0 .enabling) 0 .idle) 1 .enabling) 1 .idle) := by
  have h₀ : NoEnabler fun _ => .idle := fun _ => by simp
  exact (((h₀.arm 0).disarm rfl).arm 1).disarm rfl

/-- **Overtaken.** The second sender arms the flag and switches `EPOLLOUT` on before
    `handleWrite` switches it off: six bytes are queued, the flag is set, no thread owes an
    `epoll_ctl`, and the interest set has no `EPOLLOUT`. -/
theorem overtaken : ∃ s τ,
    Meets step EpollReports (registered .fresh)
      (flushed ++ [.sendPacket 1 2 [], .enableWrite 1, .disableWrite]) ∧
    run step (registered .fresh)
      (flushed ++ [.sendPacket 1 2 [], .enableWrite 1, .disableWrite]) = some (s, τ) ∧
    Settled s ∧ s.disconnected = false ∧ s.queue.pending ≠ [] ∧ s.interest = some false ∧
    ¬ Awake s := by
  refine ⟨_, _, by decide, rfl, ⟨by decide, senders_back⟩, rfl, by decide, rfl, ?_⟩
  intro h
  exact absurd (h.2.mp rfl) (by decide)

/-! ## 6. Every run -/

theorem WakeInv.step {s s' : State} {τ es : List Event} {l : Label} (hi : WakeInv s τ)
    (hp : EpollReports s l ∧ NotOvertaken s l) (h : step s l = some (s', es)) :
    WakeInv s' (τ ++ es) := by
  refine ⟨hi.1.step h, ?_⟩
  cases hd : s.disconnected with
  | true => exact Or.inl (disconnected_mono h hd)
  | false =>
    rcases hi.2 with h' | hwk
    · rw [hd] at h'; exact absurd h' (by simp)
    · exact hwk.step hi.1 hd hp.1 hp.2 h

theorem WakeInv.start : WakeInv (registered .fresh) [] := by
  obtain ⟨-, hact, hpend, harm⟩ := SendQueue.fresh_spec
  refine ⟨Stream.start rfl rfl, Or.inr ⟨rfl, ?_, false, rfl, ?_⟩⟩
  · rintro (h | h)
    · exact absurd hact h
    · exact absurd hpend h
  · exact Or.inl ⟨fun _ h => absurd h (by simp [registered]), harm⟩

/-- **No lost wake-up, unless overtaken.** On a registered connection, in every run in
    which no sender's `EPOLL_CTL_MOD` falls between the last critical section of
    `handleWrite` and its own: whenever no thread owes an `epoll_ctl` and the connection
    stands, unsent bytes are waited for and the flag is the interest bit. -/
theorem no_lost_wake_up {s : State} {ls : List Label} {τ : List Event}
    (hm : Meets step (fun s l => EpollReports s l ∧ NotOvertaken s l) (registered .fresh) ls)
    (hr : run step (registered .fresh) ls = some (s, τ)) (hs : Settled s)
    (hlive : s.disconnected = false) : Awake s := by
  have h := run_inv_of_meets WakeInv (fun hi hp hs => hi.step hp hs) WakeInv.start hm hr
  rcases h.2 with hd | hwk
  · rw [hd] at hlive; exact absurd hlive (by simp)
  · exact hwk.awake hs

/-- The run of `overtaken` with the two `epoll_ctl` calls in the other order. -/
theorem no_lost_wake_up_heartbeats : ∃ s τ, run step (registered .fresh)
    (flushed ++ [.sendPacket 1 2 [], .disableWrite, .enableWrite 1]) = some (s, τ) ∧ Awake s := by
  obtain ⟨⟨s, τ⟩, hr⟩ := Option.isSome_iff_exists.mp (show (run step (registered .fresh)
    (flushed ++ [.sendPacket 1 2 [], .disableWrite, .enableWrite 1])).isSome = true from rfl)
  have hs : Settled s ∧ s.disconnected = false := by
    obtain ⟨rfl, rfl⟩ := Prod.mk.inj (Option.some.inj hr)
    exact ⟨⟨by decide, senders_back⟩, rfl⟩
  exact ⟨s, τ, hr, no_lost_wake_up (by decide) hr hs.1 hs.2⟩

end Output
end EpollChat
