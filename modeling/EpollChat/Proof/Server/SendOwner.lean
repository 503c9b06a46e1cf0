import EpollChat.Proof.Server.Threads

/-!
# Whose socket `handleWrite` writes to

`handleWrite` is called with a context and sends to the number in it. Between the lookup in
`SubReactor::run` and the `::send`, the number may have been closed, by `handleRead` of the
same event or by a worker whose `sendPacket` met a full queue, and given out again.

The condition is on `close(fd)` alone: nobody is in, or about to enter, `handleWrite` of a
context with that number, and no such context is in the client table or about to be put
there. As long as it is met, whoever may still write owns the number.
-/

namespace EpollChat
namespace Server

open Lib Machine

variable {R W : Nat}

/-! ## 1. The condition -/

/-- The context a step writes for, or registers. -/
def Act.uses : Act → Option Nat
  | .write c _ => some c
  | .accept .addClient c _ => some c
  | _ => none

/-- The number that is closed next. -/
def closes : List Act → Option Nat
  | .disconnect .close d :: _ => some d.fd
  | _ => none

/-- A number is closed only when no context with it is registered, or about to be, or
    about to be written for. -/
def QuietClose (s : State R W) : Label R W → Prop
  | .move t _ => ∀ fd ∈ closes (s.threads t), s.world.registry.clients fd = none ∧
      ∀ t', ∀ a ∈ s.threads t', ∀ c ∈ a.uses, s.world.fdOf c ≠ some fd
  | _ => True

instance (s : State R W) : DecidablePred (QuietClose s)
  | .move _ _ => inferInstanceAs (Decidable (∀ _ ∈ _, _ ∧ ∀ _, ∀ _ ∈ _, ∀ _ ∈ _, _))
  | .epollWait .. | .accept .. | .send .. | .bindPacket .. | .loginPacket .. | .startLogin .. => isTrue trivial

/-! ## 2. Whoever may write owns the number -/

structure Owned (s : State R W) : Prop where
  fresh : s.world.Fresh
  clients : ∀ {fd c}, s.world.registry.clients fd = some c → s.world.Owns c fd
  acts : ∀ {t a c}, a ∈ s.threads t → a.uses = some c → ∃ fd, s.world.Owns c fd

theorem uses_of_plain {a : Act} (h : a.plain = true) : a.uses = none := by
  cases a with
  | write c pc => exact absurd h (by simp [Act.plain])
  | accept stage c e =>
    cases stage with
    | addClient => exact absurd h (by simp [Act.plain])
    | _ => rfl
  | _ => rfl

/-- The tables are as they were, and the new steps use a context only if an old one did. -/
theorem Owned.same {s : State R W} {w : World} {threads : Thread R W → List Act} (hi : Owned s)
    (hs : Same s.world w)
    (hacts : ∀ {t a c}, a ∈ threads t → a.uses = some c → ∃ fd, s.world.Owns c fd) :
    Owned ⟨w, threads⟩ := by
  refine ⟨hs.fresh hi.fresh, ?_, ?_⟩
  · intro fd c h
    rw [show w.registry.clients = s.world.registry.clients from hs.clients] at h
    exact hs.owns.mpr (hi.clients h)
  · intro t a c ha hc
    obtain ⟨fd, h⟩ := hacts ha hc
    exact ⟨fd, hs.owns.mpr h⟩

theorem mem_onEvent_uses {c c' : Nat} {r : Ready} {a : Act} (h : a ∈ onEvent c r)
    (hc : a.uses = some c') : c' = c := by
  rcases mem_onEvent h with rfl | rfl | rfl
  · exact absurd hc (by simp [Act.uses])
  · exact (Option.some.inj hc).symm
  · exact absurd hc (by simp [Act.uses])

theorem Owned.moved {s : State R W} {t : Thread R W} {answer : Answer} {act : Act}
    {rest acts : List Act} {w : World} {es : List Event} (hi : Owned s)
    (hq : QuietClose s (.move t answer)) (hth : s.threads t = act :: rest)
    (hd : Did s.world act w acts es) :
    Owned (⟨w, Function.update s.threads t (acts ++ rest)⟩ : State R W) := by
  have hact := mem_of_next hth
  -- enough: what the new steps use is owned
  have hnew : (∀ {a c}, a ∈ acts → a.uses = some c → ∃ fd, s.world.Owns c fd) →
      ∀ {t' a c}, a ∈ Function.update s.threads t (acts ++ rest) t' → a.uses = some c →
        ∃ fd, s.world.Owns c fd := by
    intro h t' a c ha hc
    rcases mem_moved hth ha with ha | ha
    · exact h ha hc
    · exact hi.acts ha hc
  have hnone : (∀ a ∈ acts, a.uses = none) →
      ∀ {t' a c}, a ∈ Function.update s.threads t (acts ++ rest) t' → a.uses = some c →
        ∃ fd, s.world.Owns c fd := by
    intro h
    refine hnew fun ha hc => ?_
    rw [h _ ha] at hc
    exact absurd hc (by simp)
  cases hd with
  | @lookup r c h =>
    refine hi.same (Same.refl _) (hnew fun ha hc => ?_)
    rw [mem_onEvent_uses ha hc]
    exact ⟨r.fd, hi.clients h⟩
  | @write c pc w' acts es hs hacts hes =>
    refine hi.same hs (hnew fun {a c'} ha hc => ?_)
    rcases hacts a ha with ⟨pc', rfl⟩ | ⟨fd, rfl⟩
    · rw [show c' = c from (Option.some.inj hc).symm]
      exact hi.acts hact rfl
    · exact absurd hc (by simp [Act.uses])
  | found h => exact hi.same (Same.refl _) (hnone (by simp [Act.uses]))
  | removeUser hs => exact hi.same hs (hnone (by simp [Act.uses]))
  | epollDel hs => exact hi.same hs (hnone (by simp [Act.uses]))
  | shutdown => exact hi.same (Same.refl _) (hnone (by simp [Act.uses]))
  | @removeClient d =>
    refine ⟨hi.fresh, ?_, ?_⟩
    · intro fd c h
      change Function.update s.world.registry.clients d.fd none fd = some c at h
      by_cases hfd : fd = d.fd
      · subst hfd
        rw [Function.update_self] at h
        exact absurd h (by simp)
      · rw [Function.update_of_ne hfd] at h
        exact hi.clients h
    · exact hnone (by simp [Act.uses])
  | @close d =>
    have hcl : closes (s.threads t) = some d.fd := by rw [hth]; rfl
    obtain ⟨hnone, huse⟩ := hq d.fd hcl
    refine ⟨hi.fresh, ?_, ?_⟩
    · intro fd c h
      change s.world.registry.clients fd = some c at h
      refine (hi.clients h).closeFd ?_
      rintro rfl
      rw [hnone] at h
      exact absurd h (by simp)
    · intro t' a c ha hc
      have ha' : a ∈ s.threads t' := by
        rcases mem_moved hth ha with ha | ha
        · exact absurd ha (by simp)
        · exact ha
      obtain ⟨fd, h⟩ := hi.acts ha' hc
      refine ⟨fd, h.closeFd ?_⟩
      rintro rfl
      exact huse t' a ha' c hc h.1
  | @addClient c e fd h =>
    obtain ⟨fd', howns⟩ := hi.acts hact rfl
    have hfd : fd' = fd := Option.some.inj (howns.1.symm.trans h)
    subst hfd
    refine ⟨hi.fresh, ?_, ?_⟩
    · intro f c' h'
      change Function.update s.world.registry.clients fd' (some c) f = some c' at h'
      by_cases hf : f = fd'
      · subst hf
        rw [Function.update_self, Option.some.injEq] at h'
        subst h'
        exact howns
      · rw [Function.update_of_ne hf] at h'
        exact hi.clients h'
    · exact hnone (by simp [Act.uses])
  | lastGuard hacts =>
    refine hi.same (Same.refl _) (hnone fun a ha => ?_)
    rw [hacts a ha]
    rfl
  | setOnline hs hacts => exact hi.same hs (hnone fun a ha => uses_of_plain (hacts a ha))
  | plain hs hact hacts => exact hi.same hs (hnone fun a ha => uses_of_plain (hacts a ha))

/-- **One step** keeps the owners. -/
theorem Owned.step {s s' : State R W} {l : Label R W} {es : List Event} (hi : Owned s)
    (hq : QuietClose s l) (h : Stepped s l s' es) : Owned s' := by
  cases h with
  | @started _ t w acts hs hacts hidle =>
    refine hi.same hs fun {t' a c} ha hc => ?_
    rcases mem_update ha with ha | ha
    · rw [uses_of_plain (hacts a ha)] at hc
      exact absurd hc (by simp)
    · exact hi.acts ha hc
  | @accepted fd e hfree hidle =>
    refine ⟨World.accepted_fresh hi.fresh fd, ?_, ?_⟩
    · intro f c h
      exact (hi.clients h).accepted hi.fresh hfree
    · intro t' a c ha hc
      rcases mem_update ha with ha | ha
      · rw [List.mem_singleton.mp ha] at hc
        rw [← Option.some.inj hc]
        exact ⟨fd, World.owns_accepted _ fd⟩
      · obtain ⟨f, h⟩ := hi.acts ha hc
        exact ⟨f, h.accepted hi.fresh hfree⟩
  | moved hth hd => exact hi.moved hq hth hd

/-- The bytes were passed to the socket of their own context. -/
def OwnSocket : Event → Prop
  | .passed c _ socket _ => socket = some c
  | _ => True

theorem Owned.passed {s s' : State R W} {l : Label R W} {es : List Event} (hi : Owned s)
    (h : Stepped s l s' es) : ∀ e ∈ es, OwnSocket e := by
  intro e he
  cases h with
  | started hs hacts hidle => exact absurd he (by simp)
  | accepted hfree hidle => exact absurd he (by simp)
  | @moved t answer act rest acts w es hth hd =>
    have hact := mem_of_next hth
    cases hd with
    | write hs hacts hes =>
      obtain ⟨fd, bytes, hfd, rfl⟩ := hes e he
      obtain ⟨f, howns⟩ := hi.acts hact rfl
      obtain rfl := Option.some.inj (hfd.symm.trans howns.1)
      exact howns.2
    | removeClient => rw [List.mem_singleton.mp he]; trivial
    | shutdown => rw [List.mem_singleton.mp he]; trivial
    | close => rw [List.mem_singleton.mp he]; trivial
    | setOnline _ _ => rw [List.mem_singleton.mp he]; trivial
    | _ => exact absurd he (by simp)

/-! ## 3. Bytes stay on their connection -/

/-- **Bytes never cross connections** in a run in which every `close` is quiet: whenever
    `handleWrite` of `c` passes bytes to `::send`, the number denotes the socket that was
    accepted for `c`. -/
theorem bytes_stay {ls : List (Label R W)} {s : State R W} {τ : List Event}
    (hr : run step {} ls = some (s, τ)) (hm : Meets step QuietClose {} ls) {c fd : Nat}
    {socket : Option Nat} {bytes : Bytes} (h : .passed c fd socket bytes ∈ τ) :
    socket = some c := by
  have hstart : Owned ({} : State R W) :=
    ⟨fun _ _ => rfl, fun h => absurd h (by simp), fun h => absurd h (by simp)⟩
  refine run_events_of_meets (P := QuietClose) Owned OwnSocket ?_ hstart hm hr _ h
  intro s l s' es hi hq hs
  have hs := step_stepped hs
  exact ⟨hi.step hq hs, hi.passed hs⟩

/-- A connection is accepted as descriptor 5, and a heartbeat is queued for it. -/
def heartbeatQueued (e : Fin R) (i : Fin W) : List (Label R W) :=
  comesIn 5 e ++ (.send i 0 2 [] :: List.replicate 2 (.move (.worker i) .none))

/-- The heartbeat is sent; then the peer closes, and the number is given out again. -/
def sentAndClosed (e : Fin R) (i : Fin W) : List (Label R W) :=
  heartbeatQueued e i ++
    [.epollWait e [⟨5, false, true, false⟩], .move (.reactor e) .none, .move (.reactor e) .none,
      .move (.reactor e) (.sent (.took 6))] ++ List.replicate 4 (.move (.reactor e) .none) ++
    endsStream ⟨5, true, false, false⟩ e ++ [.accept 5 e]

theorem bytes_stay_heartbeat : ∃ (s : State 1 1) (τ : List Event),
    run step {} (sentAndClosed 0 0) = some (s, τ) ∧
    Event.passed 0 5 (some 0) [0, 0, 0, 6, 0, 2] ∈ τ ∧
    ∀ c fd socket bytes, Event.passed c fd socket bytes ∈ τ → socket = some c := by
  obtain ⟨⟨s, τ⟩, hr, hτ⟩ := Option.map_eq_some_iff.mp (show (run step ({} : State 1 1)
    (sentAndClosed 0 0)).map (fun p => decide (Event.passed 0 5 (some 0) [0, 0, 0, 6, 0, 2] ∈ p.2))
      = some true by decide)
  exact ⟨s, τ, hr, of_decide_eq_true hτ,
    fun c fd socket bytes h => bytes_stay hr (by decide) h⟩

/-- **The heartbeat goes to somebody else.** The event is `EPOLLIN | EPOLLOUT`. `handleRead`
    meets the end of the stream and closes 5; the next connection gets the number; and
    `handleWrite` sends the old connection's bytes to it. -/
theorem bytes_cross : ∃ (ls : List (Label 1 1)) (s : State 1 1) (τ : List Event),
    run step {} ls = some (s, τ) ∧ .passed 0 5 (some 1) [0, 0, 0, 6, 0, 2] ∈ τ := by
  let ls : List (Label 1 1) := heartbeatQueued 0 0 ++ endsStream ⟨5, true, true, false⟩ 0 ++
    [.accept 5 0, .move (.reactor 0) .none, .move (.reactor 0) (.sent (.took 6))]
  obtain ⟨⟨s, τ⟩, hr, hτ⟩ := Option.map_eq_some_iff.mp (show (run step {} ls).map
    (fun p => decide (Event.passed 0 5 (some 1) [0, 0, 0, 6, 0, 2] ∈ p.2)) = some true by
      decide)
  exact ⟨ls, s, τ, hr, of_decide_eq_true hτ⟩

end Server
end EpollChat
