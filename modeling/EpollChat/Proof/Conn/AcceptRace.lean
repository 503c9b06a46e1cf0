import EpollChat.Proof.Conn.WakeUp

/-!
# A connection that is written to while it is being registered

`handleAccept` puts a context into the client table before `addFd` tells epoll about its
descriptor. A broadcast in between finds it, arms `writeArmed` and asks for `EPOLLOUT`
with `EPOLL_CTL_MOD`, which fails, or is not called at all while `reactorEpollFd` is -1.
`addFd` then adds the descriptor with `EPOLLIN` alone, and as the flag is set no later
`sendPacket` asks again (`registered_deaf`).

If every sender's `epoll_ctl` comes after `addFd`'s, the race is harmless
(`registered_awake`): up to the `EPOLL_CTL_ADD` the connection is one that is registered
without `EPOLLOUT` already, as far as the flag and the senders can tell. That is how the
invariant of `WakeUp` carries over.
-/

namespace EpollChat
namespace Output

open Lib Machine

/-! ## 1. The side condition and the invariant -/

/-- No sender calls `epoll_ctl` before `addFd` has. -/
def AfterAdd (s : State) : Label → Prop
  | .enableWrite _ => s.interest ≠ none ∨ s.disconnected = true
  | _ => True

instance (s : State) : DecidablePred (AfterAdd s)
  | .enableWrite _ => inferInstanceAs (Decidable (_ ∨ _))
  | .sendPacket .. | .dropConnection .. | .startWrite | .takeChunk | .kernelSend ..
  | .consumeSent | .finishWrite | .disableWrite | .failConnection | .assignEpollFd | .epollAdd
  | .disconnect => isTrue trivial

/-- The connection as it will be when `addFd` returns. -/
def added (s : State) : State := { s with reactorEpollFd := true, interest := some false }

/-- Not registered yet, and in order. -/
structure Registering (s : State) : Prop where
  interest : s.interest = none
  writer : s.writer = .idle
  wake : Wake (added s)

def AcceptInv (s : State) (τ : List Event) : Prop :=
  Stream s τ ∧ (s.disconnected = true ∨ Wake s ∨ Registering s)

/-! ## 2. Steps -/

/-- `sendPacket` up to the end of its critical section does not look at the epoll set. -/
theorem sendPacket_added {s s' : State} {tid : Nat} {type : UInt16} {data : Bytes}
    {es : List Event} (h : sendPacket s tid type data = some (s', es)) :
    sendPacket (added s) tid type data = some (added s', es) ∧ s'.interest = s.interest ∧
      s'.writer = s.writer := by
  obtain ⟨hidle, ⟨q, he, rfl, rfl⟩ | ⟨need, q, he, rfl, rfl⟩⟩ := sendPacket_cases h
  · refine ⟨?_, rfl, rfl⟩
    rw [sendPacket, show (added s).senders tid = .idle from hidle,
      show (added s).queue.enqueue type data = _ from he]
    rfl
  · refine ⟨?_, rfl, rfl⟩
    rw [sendPacket, show (added s).senders tid = .idle from hidle,
      show (added s).queue.enqueue type data = _ from he]
    rfl

theorem Stream.added {s : State} {τ : List Event} (hi : Stream s τ) : Stream (added s) τ :=
  ⟨hi.queue_ok, hi.fits, hi.bytes⟩

/-- A step before the `EPOLL_CTL_ADD`, and the step that makes it. -/
theorem Registering.step {s s' : State} {τ es : List Event} {l : Label} (hi : Stream s τ)
    (hreg : Registering s) (hlive : s.disconnected = false) (hrep : EpollReports s l)
    (hadd : AfterAdd s l) (h : step s l = some (s', es)) :
    s'.disconnected = true ∨ Wake s' ∨ Registering s' := by
  have hstill := hreg.writer
  -- `handleWrite` is not running, so none of its later steps is taken
  have hidle : ∀ {w : WriterPc}, s.writer = w → w ≠ .idle → False := fun h hne => hne (h.symm.trans hstill)
  cases move_of_step h with
  | sendPacket hs =>
    obtain ⟨h', hin, hwr⟩ := sendPacket_added hs
    exact Or.inr (Or.inr ⟨hin.trans hreg.interest, hwr.trans hstill, hreg.wake.sendPacket hi.added h'⟩)
  | enableWrite _ =>
    -- Ruled out: the descriptor is not in the epoll set yet.
    rcases hadd with h0 | h0
    · exact absurd hreg.interest h0
    · rw [hlive] at h0; exact absurd h0 (by simp)
  | dropConnection _ => exact Or.inl rfl
  | startWrite _ =>
    rcases hrep with h0 | h0
    · rw [hreg.interest] at h0; exact absurd h0 (by simp)
    · rw [hlive] at h0; exact absurd h0 (by simp)
  | takeChunk hw => exact (hidle hw (by simp)).elim
  | kernelSend hw _ => exact (hidle hw (by simp)).elim
  | consumeSent hw => exact (hidle hw (by simp)).elim
  | finishWrite hw => exact (hidle hw (by simp)).elim
  | disableWrite hw => exact (hidle hw (by simp)).elim
  | failConnection hw => exact (hidle hw (by simp)).elim
  | assignEpollFd => exact Or.inr (Or.inr ⟨hreg.interest, hstill, hreg.wake⟩)
  | epollAdd hfd _ _ =>
    have hsame : { s with interest := some false } = Output.added s := by
      rw [Output.added, ← hfd]
    rw [hsame]
    exact Or.inr (Or.inl hreg.wake)
  | disconnect => exact Or.inl rfl

theorem AcceptInv.step {s s' : State} {τ es : List Event} {l : Label} (hi : AcceptInv s τ)
    (hp : EpollReports s l ∧ NotOvertaken s l ∧ AfterAdd s l) (h : step s l = some (s', es)) :
    AcceptInv s' (τ ++ es) := by
  obtain ⟨hrep, hno, hadd⟩ := hp
  refine ⟨hi.1.step h, ?_⟩
  cases hd : s.disconnected with
  | true => exact Or.inl (disconnected_mono h hd)
  | false =>
    rcases hi.2 with h' | hwk | hreg
    · rw [hd] at h'; exact absurd h' (by simp)
    · rcases hwk.step hi.1 hd hrep hno h with h' | h'
      · exact Or.inl h'
      · exact Or.inr (Or.inl h')
    · exact hreg.step hi.1 hd hrep hadd h

theorem AcceptInv.start : AcceptInv (accepted .fresh) [] := by
  refine ⟨Stream.start rfl rfl, Or.inr (Or.inr ⟨rfl, rfl, ?_⟩)⟩
  rcases WakeInv.start.2 with h | h
  · exact absurd h (by simp [registered])
  · exact h

/-! ## 3. Every run -/

/-- **Accept races are harmless, if epoll hears of the descriptor first.** From a context
    that has just been put into the client table, in every run in which every sender's
    `epoll_ctl` comes after `addFd`'s (and `handleWrite`'s own is not overtaken), a
    registered connection with unsent bytes is waited for whenever no thread is between its
    critical section and its `epoll_ctl`. -/
theorem registered_awake {s : State} {ls : List Label} {τ : List Event}
    (hm : Meets step (fun s l => EpollReports s l ∧ NotOvertaken s l ∧ AfterAdd s l)
      (accepted .fresh) ls)
    (hr : run step (accepted .fresh) ls = some (s, τ)) (hs : Settled s)
    (hlive : s.disconnected = false) (hadded : s.interest ≠ none) :
    s.queue.active ≠ [] ∨ s.queue.pending ≠ [] → s.interest = some true := by
  have h := run_inv_of_meets AcceptInv (fun hi hp hs => hi.step hp hs) AcceptInv.start hm hr
  rcases h.2 with hd | hwk | hreg
  · rw [hd] at hlive; exact absurd hlive (by simp)
  · exact (hwk.awake hs).1
  · exact absurd hreg.interest hadded

/-- A broadcast whose critical section falls between `addClientCtx` and `addFd`. -/
def early : List Label := [.sendPacket 0 1 (ascii "\x7b\"sender\":\"a\"\x7d"), .assignEpollFd]

theorem one_sender_back : NoEnabler (Function.update (Function.update (fun _ => .idle) 0 .enabling) 0
    .idle) := by
  have h₀ : NoEnabler fun _ => .idle := fun _ => by simp
  exact (h₀.arm 0).disarm rfl

/-- The broadcast asks for `EPOLLOUT` last. -/
theorem registered_awake_broadcast : ∃ s τ,
    run step (accepted .fresh) (early ++ [.epollAdd, .enableWrite 0]) = some (s, τ) ∧
      s.queue.pending ≠ [] ∧ s.interest = some true := by
  obtain ⟨⟨s, τ⟩, hr⟩ := Option.isSome_iff_exists.mp (show (run step (accepted .fresh)
    (early ++ [.epollAdd, .enableWrite 0])).isSome = true from rfl)
  have hs : Settled s ∧ s.disconnected = false ∧ s.interest ≠ none ∧ s.queue.pending ≠ [] := by
    obtain ⟨rfl, rfl⟩ := Prod.mk.inj (Option.some.inj hr)
    exact ⟨⟨by decide, one_sender_back⟩, rfl, by decide, by decide⟩
  exact ⟨s, τ, hr, hs.2.2.2,
    registered_awake (by decide) hr hs.1 hs.2.1 hs.2.2.1 (Or.inr hs.2.2.2)⟩

/-- **Registered deaf.** The broadcast asks for `EPOLLOUT` before `EPOLL_CTL_ADD`: afterwards
    its bytes are queued, the flag is set, no thread owes an `epoll_ctl`, and the interest
    set has no `EPOLLOUT`. -/
theorem registered_deaf : ∃ s τ,
    run step (accepted .fresh) (early ++ [.enableWrite 0, .epollAdd]) = some (s, τ) ∧ Settled s ∧
      s.disconnected = false ∧ s.queue.pending ≠ [] ∧ s.queue.writeArmed = true ∧
      s.interest = some false := by
  refine ⟨_, _, rfl, ⟨by decide, one_sender_back⟩, rfl, by decide, rfl, rfl⟩

end Output
end EpollChat
