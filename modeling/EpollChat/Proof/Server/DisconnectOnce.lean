import EpollChat.Lib.Threads
import EpollChat.Proof.Server.Threads

/-!
# Whom `handleDisconnect` hits

`handleDisconnect(fd)` looks the number up again. If the connection its caller meant has gone
in the meantime and the number has a new owner, it hits the new one; and two callers that
find the same context both go on to `close(fd)`.

The condition is on the lookup: it finds nothing, or the context the caller meant, which no
other call has found. Then a call owns the number from its lookup to its `close`. `ActOk`
says so for each call in progress, and `holders` counts, over all threads, the calls that
have found a context.
-/

namespace EpollChat
namespace Server

open Lib Machine

variable {R W : Nat}

/-! ## 1. The condition -/

/-- The context a call of `handleDisconnect` has found. -/
def Act.found : Act → Option Nat
  | .disconnect _ d => some d.found
  | _ => none

/-- The number that is looked up next, and on whose behalf. -/
def looksUp : List Act → Option (Nat × Nat)
  | .handleDisconnect fd onBehalf :: _ => some (fd, onBehalf)
  | _ => none

/-- `handleDisconnect` finds nothing, or the context it is meant for, and is the first to. -/
def FindsOwn (s : State R W) : Label R W → Prop
  | .move t _ => ∀ q ∈ looksUp (s.threads t), ∀ c ∈ s.world.registry.clients q.1,
      c = q.2 ∧ ∀ t', ∀ a ∈ s.threads t', a.found ≠ some c
  | _ => True

instance (s : State R W) : DecidablePred (FindsOwn s)
  | .move _ _ => inferInstanceAs (Decidable (∀ _ ∈ _, ∀ _ ∈ _, _ ∧ ∀ _, ∀ _ ∈ _, _))
  | .epollWait .. | .accept .. | .send .. | .bindPacket .. | .loginPacket .. | .startLogin .. => isTrue trivial

/-! ## 2. One call for each context -/

/-- The context a step is about to register or to disconnect. -/
def Act.holds : Act → Option Nat
  | .disconnect _ d => some d.found
  | .accept .addClient c _ => some c
  | _ => none

theorem holds_of_plain {a : Act} (h : a.plain = true) : a.holds = none := by
  cases a with
  | disconnect stage d => exact absurd h (by simp [Act.plain])
  | accept stage c e =>
    cases stage with
    | addClient => exact absurd h (by simp [Act.plain])
    | _ => rfl
  | _ => rfl

def holdCount (c : Nat) (acts : List Act) : Nat := acts.countP fun a => a.holds = some c

/-- The steps of all threads that hold `c`. -/
def holders (threads : Thread R W → List Act) (c : Nat) : Nat := ∑ t, holdCount c (threads t)

theorem holdCount_none {c : Nat} {acts : List Act} (h : ∀ a ∈ acts, a.holds ≠ some c) :
    holdCount c acts = 0 := by
  refine List.countP_eq_zero.mpr fun a ha => ?_
  simpa using h a ha

theorem holders_none {threads : Thread R W → List Act} {c : Nat}
    (h : ∀ t, ∀ a ∈ threads t, a.holds ≠ some c) : holders threads c = 0 :=
  Finset.sum_eq_zero fun t _ => holdCount_none (h t)

theorem not_holds {threads : Thread R W → List Act} {c : Nat} (h : holders threads c = 0)
    {t : Thread R W} {a : Act} (ha : a ∈ threads t) : a.holds ≠ some c := by
  have hle : holdCount c (threads t) ≤ holders threads c := Threads.le_sum (holdCount c) threads t
  have hzero : holdCount c (threads t) = 0 := by omega
  simpa using List.countP_eq_zero.mp hzero a ha

/-- A step that starts as `act` and goes on as `acts`. -/
theorem holders_moved {threads : Thread R W → List Act} {t : Thread R W} {act : Act}
    {rest : List Act} (acts : List Act) (c : Nat) (hth : threads t = act :: rest) :
    holders (Function.update threads t (acts ++ rest)) c + holdCount c [act]
      = holders threads c + holdCount c acts := by
  have h := Threads.sum_update (holdCount c) threads t (acts ++ rest)
  have h₁ : holdCount c ([act] ++ rest) = holdCount c [act] + holdCount c rest := List.countP_append
  have h₂ : holdCount c (acts ++ rest) = holdCount c acts + holdCount c rest := List.countP_append
  rw [hth, ← List.singleton_append, h₁, h₂] at h
  unfold holders
  omega

/-- The table of clients no longer has the context. -/
def DisconnectStage.removed : DisconnectStage → Bool
  | .removeUser => false
  | .removeClient => false
  | _ => true

/-- A call in progress is meant for the context it found, and owns its number. -/
def ActOk (w : World) : Act → Prop
  | .disconnect stage d => d.onBehalf = d.found ∧ w.Owns d.found d.fd ∧
      (stage.removed = true → w.registry.clients d.fd ≠ some d.found)
  | .accept .addClient c _ => (∃ fd, w.Owns c fd) ∧ ∀ fd, w.registry.clients fd ≠ some c
  | _ => True

theorem actOk_of_free {w : World} {a : Act} (h : a.holds = none) : ActOk w a := by
  cases a with
  | disconnect stage d => exact absurd h (by simp [Act.holds])
  | accept stage c e =>
    cases stage with
    | addClient => exact absurd h (by simp [Act.holds])
    | _ => trivial
  | _ => trivial

theorem Same.actOk {w w' : World} (hs : Same w w') {a : Act} (h : ActOk w a) : ActOk w' a := by
  cases a with
  | disconnect stage d =>
    obtain ⟨h₁, h₂, h₃⟩ := h
    refine ⟨h₁, hs.owns.mpr h₂, fun hst => ?_⟩
    rw [hs.clients]
    exact h₃ hst
  | accept stage c e =>
    cases stage with
    | addClient =>
      obtain ⟨⟨fd, h₁⟩, h₂⟩ := h
      refine ⟨⟨fd, hs.owns.mpr h₁⟩, fun fd => ?_⟩
      rw [hs.clients]
      exact h₂ fd
    | _ => trivial
  | _ => trivial

structure Exclusive (s : State R W) (τ : List Event) : Prop where
  fresh : s.world.Fresh
  sockets : ∀ {fd c}, s.world.sockets fd = some c → s.world.fdOf c = some fd
  clients : ∀ {fd c}, s.world.registry.clients fd = some c → s.world.Owns c fd
  acts : ∀ {t a}, a ∈ s.threads t → ActOk s.world a
  once : ∀ c, holders s.threads c ≤ 1
  closed : ∀ {d socket}, .closed d socket ∈ τ →
    s.world.fdOf d.found ≠ none ∧ ∀ fd, s.world.sockets fd ≠ some d.found

/-! ## 3. Every step -/

/-- The tables are as they were. -/
theorem Exclusive.same {s : State R W} {τ es : List Event} {w : World}
    {threads : Thread R W → List Act} (hi : Exclusive s τ) (hs : Same s.world w)
    (hacts : ∀ {t a}, a ∈ threads t → ActOk s.world a) (honce : ∀ c, holders threads c ≤ 1)
    (hes : ∀ {d socket}, .closed d socket ∉ es) : Exclusive ⟨w, threads⟩ (τ ++ es) := by
  refine ⟨hs.fresh hi.fresh, ?_, ?_, fun ha => hs.actOk (hacts ha), honce, ?_⟩
  · intro fd c h
    rw [hs.sockets] at h
    rw [hs.fds]
    exact hi.sockets h
  · intro fd c h
    rw [hs.clients] at h
    exact hs.owns.mpr (hi.clients h)
  · intro d socket h
    obtain ⟨h₁, h₂⟩ := hi.closed ((List.mem_append.mp h).resolve_right hes)
    exact ⟨by rw [hs.fds]; exact h₁, fun fd => by rw [hs.sockets]; exact h₂ fd⟩

section

variable {s : State R W} {τ : List Event} {t : Thread R W} {act : Act} {rest acts : List Act}

/-- A step after which the thread holds no more than before. -/
theorem Exclusive.moved_same {w : World} {es : List Event} (hi : Exclusive s τ)
    (hth : s.threads t = act :: rest) (hs : Same s.world w) (hacts : ∀ a ∈ acts, ActOk s.world a)
    (hcount : ∀ c, holdCount c acts ≤ holdCount c [act])
    (hes : ∀ {d socket}, .closed d socket ∉ es) :
    Exclusive (⟨w, Function.update s.threads t (acts ++ rest)⟩ : State R W) (τ ++ es) := by
  refine hi.same hs ?_ ?_ hes
  · intro t' a ha
    rcases mem_moved hth ha with ha | ha
    · exact hacts a ha
    · exact hi.acts ha
  · intro c
    have h := holders_moved acts c hth
    have h₁ := hi.once c
    have h₂ := hcount c
    omega

/-- A step that goes on with none of the steps that matter. -/
theorem Exclusive.moved_free {w : World} {es : List Event} (hi : Exclusive s τ)
    (hth : s.threads t = act :: rest) (hs : Same s.world w) (hacts : ∀ a ∈ acts, a.holds = none)
    (hes : ∀ {d socket}, .closed d socket ∉ es) :
    Exclusive (⟨w, Function.update s.threads t (acts ++ rest)⟩ : State R W) (τ ++ es) := by
  refine hi.moved_same hth hs (fun a ha => actOk_of_free (hacts a ha)) (fun c => ?_) hes
  rw [holdCount_none fun a ha => by rw [hacts a ha]; simp]
  exact Nat.zero_le _

/-- The lookup: the context was in the table, so nobody was about to register it. -/
theorem Exclusive.found {fd onBehalf c : Nat} {answer : Answer} (hi : Exclusive s τ)
    (hth : s.threads t = .handleDisconnect fd onBehalf :: rest)
    (hq : FindsOwn s (.move t answer)) (h : s.world.registry.clients fd = some c) :
    Exclusive (⟨s.world, Function.update s.threads t
      ([.disconnect .removeUser ⟨fd, onBehalf, c⟩] ++ rest)⟩ : State R W) (τ ++ []) := by
  have hlook : looksUp (s.threads t) = some (fd, onBehalf) := by rw [hth]; rfl
  obtain ⟨rfl, hfirst⟩ := hq _ hlook c h
  have hzero : holders s.threads c = 0 := by
    refine holders_none fun t' a ha hc => ?_
    cases a with
    | disconnect stage d => exact hfirst t' _ ha hc
    | accept stage c' e =>
      cases stage with
      | addClient =>
        rw [show c' = c from Option.some.inj hc] at ha
        exact (hi.acts ha).2 fd h
      | _ => exact absurd hc (by simp [Act.holds])
    | _ => exact absurd hc (by simp [Act.holds])
  refine hi.same (Same.refl _) ?_ ?_ (by simp)
  · intro t' a ha
    rcases mem_moved hth ha with ha | ha
    · rw [List.mem_singleton.mp ha]
      exact ⟨rfl, hi.clients h, fun hst => absurd hst (by simp [DisconnectStage.removed])⟩
    · exact hi.acts ha
  · intro c'
    have hm := holders_moved [.disconnect .removeUser ⟨fd, c, c⟩] c' hth
    have hone := hi.once c'
    have hle : holdCount c' [Act.disconnect .removeUser ⟨fd, c, c⟩] ≤ 1 := List.countP_le_length
    by_cases hc : c' = c
    · rw [hc] at hm hone hle ⊢
      omega
    · have hne : holdCount c' [Act.disconnect .removeUser ⟨fd, c, c⟩] = 0 := by
        refine holdCount_none fun a ha heq => ?_
        rw [List.mem_singleton.mp ha] at heq
        exact hc (Option.some.inj heq).symm
      omega

/-- After the last step of a call nobody holds the context. -/
theorem Exclusive.released {c : Nat} (hi : Exclusive s τ) (acts : List Act) (hth : s.threads t = act :: rest)
    (hact : act.holds = some c) (hacts : ∀ a ∈ acts, a.holds = none) :
    holders (Function.update s.threads t (acts ++ rest)) c = 0 := by
  have h := holders_moved acts c hth
  have hone : holdCount c [act] = 1 := by
    simp [holdCount, hact]
  have hnone : holdCount c acts = 0 := holdCount_none fun a ha => by rw [hacts a ha]; simp
  have := hi.once c
  omega

theorem Exclusive.removeClient {d : Disconnect} (hi : Exclusive s τ)
    (hth : s.threads t = .disconnect .removeClient d :: rest) :
    Exclusive (⟨{ s.world with registry := s.world.registry.removeClientCtx d.fd },
      Function.update s.threads t ([.disconnect .epollDel d] ++ rest)⟩ : State R W)
      (τ ++ [.unregistered d (s.world.registry.clients d.fd)]) := by
  have hact := hi.acts (t := t) (mem_of_next hth)
  have hclients : ∀ {fd c}, Function.update s.world.registry.clients d.fd none fd = some c →
      s.world.registry.clients fd = some c := by
    intro fd c h
    by_cases hfd : fd = d.fd
    · subst hfd
      rw [Function.update_self] at h
      exact absurd h (by simp)
    · rwa [Function.update_of_ne hfd] at h
  have hok : ∀ {a : Act}, ActOk s.world a →
      ActOk { s.world with registry := s.world.registry.removeClientCtx d.fd } a := by
    intro a h
    cases a with
    | disconnect stage d' => exact ⟨h.1, h.2.1, fun hst heq => h.2.2 hst (hclients heq)⟩
    | accept stage c e =>
      cases stage with
      | addClient => exact ⟨h.1, fun fd heq => h.2 fd (hclients heq)⟩
      | _ => trivial
    | _ => trivial
  refine ⟨hi.fresh, hi.sockets, fun h => hi.clients (hclients h), ?_, ?_, ?_⟩
  · intro t' a ha
    rcases mem_moved hth ha with ha | ha
    · rw [List.mem_singleton.mp ha]
      refine ⟨hact.1, hact.2.1, fun _ heq => ?_⟩
      change Function.update s.world.registry.clients d.fd none d.fd = some d.found at heq
      rw [Function.update_self] at heq
      exact absurd heq (by simp)
    · exact hok (hi.acts ha)
  · intro c
    have h := holders_moved [.disconnect .epollDel d] c hth
    have hsame : holdCount c [Act.disconnect .epollDel d]
        = holdCount c [Act.disconnect .removeClient d] := rfl
    have := hi.once c
    dsimp only
    omega
  · intro d' socket h
    refine hi.closed ((List.mem_append.mp h).resolve_right (by simp))

theorem Exclusive.close {d : Disconnect} (hi : Exclusive s τ)
    (hth : s.threads t = .disconnect .close d :: rest) :
    Exclusive (⟨s.world.closeFd d.fd, Function.update s.threads t ([] ++ rest)⟩ : State R W)
      (τ ++ [.closed d (s.world.sockets d.fd)]) := by
  obtain ⟨-, howns, hremoved⟩ := hi.acts (t := t) (a := .disconnect .close d)
    (mem_of_next hth)
  have hfree := hi.released [] hth rfl (by simp)
  have hsockets : ∀ {fd c}, Function.update s.world.sockets d.fd none fd = some c →
      fd ≠ d.fd ∧ s.world.sockets fd = some c := by
    intro fd c h
    by_cases hfd : fd = d.fd
    · subst hfd
      rw [Function.update_self] at h
      exact absurd h (by simp)
    · rw [Function.update_of_ne hfd] at h
      exact ⟨hfd, h⟩
  -- the owner of the number was the context found
  have hkeep : ∀ {c fd}, s.world.Owns c fd → c ≠ d.found → (s.world.closeFd d.fd).Owns c fd := by
    intro c fd h hne
    refine h.closeFd ?_
    rintro rfl
    exact hne (Option.some.inj (h.2.symm.trans howns.2))
  refine ⟨hi.fresh, fun h => hi.sockets (hsockets h).2, ?_, ?_, ?_, ?_⟩
  · intro fd c h
    refine hkeep (hi.clients h) ?_
    rintro rfl
    have hfd : fd = d.fd := Option.some.inj ((hi.clients h).1.symm.trans howns.1)
    subst hfd
    exact hremoved rfl h
  · intro t' a ha
    have hne := not_holds hfree ha
    have ha' : a ∈ s.threads t' := by
      rcases mem_moved hth ha with ha | ha
      · exact absurd ha (by simp)
      · exact ha
    have hok := hi.acts ha'
    cases a with
    | disconnect stage d' => exact ⟨hok.1, hkeep hok.2.1 fun heq => hne (by rw [← heq]; rfl), hok.2.2⟩
    | accept stage c e =>
      cases stage with
      | addClient =>
        obtain ⟨⟨fd, h⟩, hno⟩ := hok
        exact ⟨⟨fd, hkeep h fun heq => hne (by rw [← heq]; rfl)⟩, hno⟩
      | _ => trivial
    | _ => trivial
  · intro c
    have h := holders_moved [] c hth
    have hnil : holdCount c [] = 0 := rfl
    have := hi.once c
    show holders (Function.update s.threads t ([] ++ rest)) c ≤ 1
    omega
  · intro d' socket h
    rcases List.mem_append.mp h with h | h
    · obtain ⟨h₁, h₂⟩ := hi.closed h
      exact ⟨h₁, fun fd heq => h₂ fd (hsockets heq).2⟩
    · simp only [List.mem_singleton, Event.closed.injEq] at h
      obtain ⟨rfl, -⟩ := h
      refine ⟨by rw [show (s.world.closeFd d'.fd).fdOf d'.found = s.world.fdOf d'.found from rfl, howns.1]
                 simp, fun fd heq => ?_⟩
      obtain ⟨hne, h⟩ := hsockets heq
      exact hne (Option.some.inj ((hi.sockets h).symm.trans howns.1))

theorem Exclusive.addClient {c e fd : Nat} (hi : Exclusive s τ)
    (hth : s.threads t = .accept .addClient c e :: rest) (hfd : s.world.fdOf c = some fd) :
    Exclusive (⟨{ s.world with registry := s.world.registry.addClientCtx c fd },
      Function.update s.threads t ([.accept .assignReactor c e] ++ rest)⟩ : State R W) (τ ++ []) := by
  obtain ⟨⟨fd', howns⟩, hno⟩ := hi.acts (t := t) (a := .accept .addClient c e)
    (mem_of_next hth)
  obtain rfl : fd' = fd := Option.some.inj (howns.1.symm.trans hfd)
  have hfree := hi.released [.accept .assignReactor c e] hth rfl (by simp [Act.holds])
  have hclients : ∀ {f c'}, Function.update s.world.registry.clients fd' (some c) f = some c' →
      (f = fd' ∧ c' = c) ∨ s.world.registry.clients f = some c' := by
    intro f c' h
    by_cases hf : f = fd'
    · subst hf
      rw [Function.update_self, Option.some.injEq] at h
      exact Or.inl ⟨rfl, h.symm⟩
    · rw [Function.update_of_ne hf] at h
      exact Or.inr h
  refine ⟨hi.fresh, hi.sockets, ?_, ?_, ?_, ?_⟩
  · intro f c' h
    rcases hclients h with ⟨rfl, rfl⟩ | h
    · exact howns
    · exact hi.clients h
  · intro t' a ha
    have hne := not_holds hfree ha
    rcases mem_moved hth ha with ha | ha
    · rw [List.mem_singleton.mp ha]
      trivial
    · have hok := hi.acts ha
      cases a with
      | disconnect stage d =>
        refine ⟨hok.1, hok.2.1, fun hst h => ?_⟩
        rcases hclients h with ⟨-, heq⟩ | h
        · exact hne (by rw [← heq]; rfl)
        · exact hok.2.2 hst h
      | accept stage c' e' =>
        cases stage with
        | addClient =>
          refine ⟨hok.1, fun f h => ?_⟩
          rcases hclients h with ⟨-, heq⟩ | h
          · exact hne (by rw [← heq]; rfl)
          · exact hok.2 f h
        | _ => trivial
      | _ => trivial
  · intro c'
    have h := holders_moved [.accept .assignReactor c e] c' hth
    have hzero : holdCount c' [Act.accept .assignReactor c e] = 0 := rfl
    have := hi.once c'
    dsimp only
    omega
  · intro d socket h
    rw [List.append_nil] at h
    exact hi.closed h

end

theorem onEvent_holds {c : Nat} {r : Ready} {a : Act} (h : a ∈ onEvent c r) : a.holds = none := by
  rcases mem_onEvent h with rfl | rfl | rfl <;> rfl

/-- **One step** keeps the calls apart. -/
theorem Exclusive.step {s s' : State R W} {l : Label R W} {τ es : List Event} (hi : Exclusive s τ)
    (hq : FindsOwn s l) (h : Stepped s l s' es) : Exclusive s' (τ ++ es) := by
  cases h with
  | @started _ t w acts hs hacts hidle =>
    refine hi.same hs ?_ ?_ (by simp)
    · intro t' a ha
      rcases mem_update ha with ha | ha
      · exact actOk_of_free (holds_of_plain (hacts a ha))
      · exact hi.acts ha
    · intro c
      have h := Threads.sum_update (holdCount c) s.threads t acts
      have hzero : holdCount c acts = 0 :=
        holdCount_none fun a ha => by rw [holds_of_plain (hacts a ha)]; simp
      have hone := hi.once c
      unfold holders at hone ⊢
      omega
  | @accepted fd e hfree hidle =>
    have hnew : ∀ {c f}, s.world.Owns c f → c ≠ s.world.registry.nextCtx :=
      fun h => hi.fresh.ne h.1
    refine ⟨World.accepted_fresh hi.fresh fd, ?_, fun h => (hi.clients h).accepted hi.fresh hfree, ?_,
      ?_, ?_⟩
    · intro f c h
      change Function.update s.world.sockets fd (some s.world.registry.nextCtx) f = some c at h
      by_cases hf : f = fd
      · subst hf
        rw [Function.update_self, Option.some.injEq] at h
        rw [← h]
        exact World.accepted_fdOf_new s.world f
      · rw [Function.update_of_ne hf] at h
        have hc := hi.sockets h
        exact (World.accepted_fdOf_old s.world fd (hi.fresh.ne hc)).trans hc
    · intro t' a ha
      rcases mem_update ha with ha | ha
      · rw [List.mem_singleton.mp ha]
        exact ⟨⟨fd, World.owns_accepted s.world fd⟩, fun f h => hnew (hi.clients h) rfl⟩
      · have hok := hi.acts ha
        cases a with
        | disconnect stage d => exact ⟨hok.1, hok.2.1.accepted hi.fresh hfree, hok.2.2⟩
        | accept stage c e' =>
          cases stage with
          | addClient =>
            obtain ⟨⟨f, h⟩, hno⟩ := hok
            exact ⟨⟨f, h.accepted hi.fresh hfree⟩, hno⟩
          | _ => trivial
        | _ => trivial
    · intro c
      have h := Threads.sum_update (holdCount c) s.threads .acceptor
        [.accept .addClient s.world.registry.nextCtx e]
      have hone := hi.once c
      have hle : holdCount c [Act.accept .addClient s.world.registry.nextCtx e] ≤ 1 :=
        List.countP_le_length
      by_cases hc : c = s.world.registry.nextCtx
      · -- nobody holds a context that did not exist
        have hzero : holders s.threads c = 0 := by
          refine holders_none fun t' a ha heq => ?_
          have hok := hi.acts ha
          cases a with
          | disconnect stage d => exact hnew hok.2.1 ((Option.some.inj heq).trans hc)
          | accept stage c' e' =>
            cases stage with
            | addClient =>
              obtain ⟨⟨f, h⟩, -⟩ := hok
              exact hnew h ((Option.some.inj heq).trans hc)
            | _ => exact absurd heq (by simp [Act.holds])
          | _ => exact absurd heq (by simp [Act.holds])
        unfold holders at hzero ⊢
        dsimp only
        omega
      · have hzero : holdCount c [Act.accept .addClient s.world.registry.nextCtx e] = 0 := by
          refine holdCount_none fun a ha heq => ?_
          rw [List.mem_singleton.mp ha] at heq
          exact hc (Option.some.inj heq).symm
        unfold holders at hone ⊢
        dsimp only
        omega
    · intro d socket h
      rw [List.append_nil] at h
      obtain ⟨h₁, h₂⟩ := hi.closed h
      have hne : d.found ≠ s.world.registry.nextCtx := by
        intro heq
        exact h₁ (hi.fresh _ (Nat.le_of_eq heq.symm))
      refine ⟨?_, fun f heq => ?_⟩
      · show (s.world.accepted fd).fdOf d.found ≠ none
        rw [World.accepted_fdOf_old s.world fd hne]
        exact h₁
      · change Function.update s.world.sockets fd (some s.world.registry.nextCtx) f
          = some d.found at heq
        by_cases hf : f = fd
        · subst hf
          rw [Function.update_self, Option.some.injEq] at heq
          exact hne heq.symm
        · rw [Function.update_of_ne hf] at heq
          exact h₂ f heq
  | @moved t answer act rest acts w es hth hd =>
    have hact := hi.acts (mem_of_next hth)
    cases hd with
    | lookup h => exact hi.moved_free hth (Same.refl _) (fun a ha => onEvent_holds ha) (by simp)
    | write hs hacts hes =>
      refine hi.moved_free hth hs (fun a ha => ?_) ?_
      · rcases hacts a ha with ⟨pc, rfl⟩ | ⟨fd, rfl⟩ <;> rfl
      · intro d socket h
        obtain ⟨fd, bytes, -, heq⟩ := hes _ h
        exact absurd heq (by simp)
    | found h => exact hi.found hth hq h
    | removeUser hs =>
      refine hi.moved_same hth hs (fun a ha => ?_) (fun c => Nat.le_refl _) (by simp)
      rw [List.mem_singleton.mp ha]
      exact ⟨hact.1, hact.2.1, fun hst => absurd hst (by simp [DisconnectStage.removed])⟩
    | removeClient => exact hi.removeClient hth
    | epollDel hs =>
      refine hi.moved_same hth hs (fun a ha => ?_) (fun c => Nat.le_refl _) (by simp)
      rw [List.mem_singleton.mp ha]
      exact ⟨hact.1, hact.2.1, fun _ => hact.2.2 rfl⟩
    | shutdown =>
      refine hi.moved_same hth (Same.refl _) (fun a ha => ?_) (fun c => Nat.le_refl _) (by simp)
      rw [List.mem_singleton.mp ha]
      exact ⟨hact.1, hact.2.1, fun _ => hact.2.2 rfl⟩
    | close => exact hi.close hth
    | addClient h => exact hi.addClient hth h
    | lastGuard hacts =>
      refine hi.moved_free hth (Same.refl _) (fun a ha => ?_) (by simp)
      rw [hacts a ha]
      rfl
    | setOnline hs hacts =>
      exact hi.moved_free hth hs (fun a ha => holds_of_plain (hacts a ha)) (by simp)
    | plain hs _ hacts =>
      exact hi.moved_free hth hs (fun a ha => holds_of_plain (hacts a ha)) (by simp)

/-! ## 4. Disconnect hits the right connection, once -/

/-- What the step unregistered, shut down or closed is what the caller meant. -/
def HitsOwn : Event → Prop
  | .unregistered d entry => ∀ c ∈ entry, c = d.onBehalf
  | .shutdown d socket => ∀ c ∈ socket, c = d.onBehalf
  | .closed d socket => ∀ c ∈ socket, c = d.onBehalf
  | _ => True

/-- The `close` calls made for the connection of `c`. -/
def closings (c : Nat) (τ : List Event) : Nat :=
  τ.countP fun
    | .closed d _ => d.found = c
    | _ => false

theorem Exclusive.hits {s s' : State R W} {l : Label R W} {τ es : List Event} (hi : Exclusive s τ)
    (h : Stepped s l s' es) : ∀ e ∈ es, HitsOwn e := by
  intro e he
  cases h with
  | started hs hacts hidle => exact absurd he (by simp)
  | accepted hfree hidle => exact absurd he (by simp)
  | @moved t answer act rest acts w es hth hd =>
    have hact := hi.acts (mem_of_next hth)
    cases hd with
    | write hs hacts hes =>
      obtain ⟨fd, bytes, -, rfl⟩ := hes e he
      trivial
    | removeClient =>
      rw [List.mem_singleton.mp he]
      intro c hc
      have hsock := (hi.clients hc).2
      rw [hact.2.1.2, Option.some.injEq] at hsock
      rw [hact.1, hsock]
    | shutdown =>
      rw [List.mem_singleton.mp he]
      intro c hc
      rw [hact.2.1.2] at hc
      rw [hact.1, Option.some.inj hc]
    | close =>
      rw [List.mem_singleton.mp he]
      intro c hc
      rw [hact.2.1.2] at hc
      rw [hact.1, Option.some.inj hc]
    | setOnline _ _ => rw [List.mem_singleton.mp he]; trivial
    | _ => exact absurd he (by simp)

/-- A `close` is the first for its connection: the call still owns the number. -/
theorem Exclusive.closings_step {s s' : State R W} {l : Label R W} {τ es : List Event}
    (hi : Exclusive s τ) (h : Stepped s l s' es) {c : Nat} (hle : closings c τ ≤ 1) :
    closings c (τ ++ es) ≤ 1 := by
  have happ : closings c (τ ++ es) = closings c τ + closings c es := List.countP_append
  have hnone : (∀ d socket, .closed d socket ∉ es) → closings c es = 0 := by
    intro hno
    refine List.countP_eq_zero.mpr fun e he => ?_
    cases e with
    | closed d socket => exact absurd he (hno d socket)
    | _ => simp
  rw [happ]
  cases h with
  | started hs hacts hidle => rw [hnone (by simp)]; exact hle
  | accepted hfree hidle => rw [hnone (by simp)]; exact hle
  | @moved t answer act rest acts w es hth hd =>
    have hact := hi.acts (mem_of_next hth)
    cases hd with
    | @close d =>
      by_cases hc : d.found = c
      · have hzero : closings c τ = 0 := by
          refine List.countP_eq_zero.mpr fun e he => ?_
          cases e with
          | closed d' socket =>
            have hno := (hi.closed he).2 d.fd
            rw [hact.2.1.2] at hno
            have hne : d'.found ≠ c := fun heq => hno (by rw [heq, hc])
            simpa using hne
          | _ => simp
        rw [hzero, Nat.zero_add]
        exact List.countP_le_length
      · rw [show closings c [Event.closed d (s.world.sockets d.fd)] = 0 by simp [closings, hc]]
        exact hle
    | write hs hacts hes =>
      rw [hnone fun d socket h => by
        obtain ⟨fd, bytes, -, heq⟩ := hes _ h
        exact absurd heq (by simp)]
      exact hle
    | _ => rw [hnone (by simp)]; exact hle

/-- **Disconnect hits the right connection, once**, in a run in which every lookup of
    `handleDisconnect` finds nothing or the context it is meant for, and is the first to:
    nothing else is unregistered, shut down or closed on its behalf, and no connection's
    descriptor is closed twice. -/
theorem disconnect_hits_own {ls : List (Label R W)} {s : State R W} {τ : List Event}
    (hr : run step {} ls = some (s, τ)) (hm : Meets step FindsOwn {} ls) :
    (∀ e ∈ τ, HitsOwn e) ∧ ∀ c, closings c τ ≤ 1 := by
  have hstart : Exclusive ({} : State R W) [] :=
    ⟨fun _ _ => rfl, fun h => absurd h (by simp), fun h => absurd h (by simp),
      fun h => absurd h (by simp), fun c => Nat.le_of_lt (Nat.lt_one_iff.mpr (holders_none (by simp))),
      fun h => absurd h (by simp)⟩
  refine (run_inv_of_meets (P := FindsOwn)
    (fun (s : State R W) τ => Exclusive s τ ∧ (∀ e ∈ τ, HitsOwn e) ∧ ∀ c, closings c τ ≤ 1) ?_ (τ := [])
    ⟨hstart, by simp, fun c => Nat.zero_le 1⟩ hm hr).2
  intro s τ l s' es hi hq hs
  obtain ⟨hi, hhit, hclosed⟩ := hi
  have hs := step_stepped hs
  refine ⟨hi.step hq hs, fun e he => ?_, fun c => hi.closings_step hs (hclosed c)⟩
  rcases List.mem_append.mp he with he | he
  · exact hhit e he
  · exact hi.hits hs e he

/-- A connection is accepted as descriptor 5, its peer closes, and the number is given out
    again. -/
def closedByPeer (e : Fin R) : List (Label R W) :=
  comesIn 5 e ++ endsStream ⟨5, true, false, false⟩ e ++ comesIn 5 e

theorem disconnect_hits_own_once : ∃ (s : State 1 1) (τ : List Event),
    run step {} (closedByPeer 0) = some (s, τ) ∧ closings 0 τ = 1 ∧ (∀ e ∈ τ, HitsOwn e) ∧ ∀ c, closings c τ ≤ 1 := by
  obtain ⟨⟨s, τ⟩, hr, hτ⟩ := Option.map_eq_some_iff.mp (show (run step ({} : State 1 1)
    (closedByPeer 0)).map (fun p => closings 0 p.2) = some 1 by decide)
  exact ⟨s, τ, hr, hτ, disconnect_hits_own hr (by decide)⟩

/-- **The wrong connection.** The event is `EPOLLIN | EPOLLHUP`. `handleRead` meets the end of
    the stream and disconnects 5; the number goes to the next connection; and the event's own
    `handleDisconnect(5)` finds that one, unregisters it, shuts it down and closes it. -/
theorem disconnect_hits_other : ∃ (ls : List (Label 1 1)) (s : State 1 1) (τ : List Event),
    run step {} ls = some (s, τ) ∧ .unregistered ⟨5, 0, 1⟩ (some 1) ∈ τ ∧
    .shutdown ⟨5, 0, 1⟩ (some 1) ∈ τ ∧ .closed ⟨5, 0, 1⟩ (some 1) ∈ τ ∧
    ¬ ∀ e ∈ τ, HitsOwn e := by
  let ls : List (Label 1 1) := comesIn 5 0 ++ endsStream ⟨5, true, false, true⟩ 0 ++ comesIn 5 0 ++
    List.replicate 6 (.move (.reactor 0) .none)
  obtain ⟨⟨s, τ⟩, hr, hτ⟩ := Option.map_eq_some_iff.mp (show (run step {} ls).map
    (fun p => decide (Event.unregistered ⟨5, 0, 1⟩ (some 1) ∈ p.2 ∧
      Event.shutdown ⟨5, 0, 1⟩ (some 1) ∈ p.2 ∧ Event.closed ⟨5, 0, 1⟩ (some 1) ∈ p.2))
        = some true by decide)
  obtain ⟨h₁, h₂, h₃⟩ := of_decide_eq_true hτ
  refine ⟨ls, s, τ, hr, h₁, h₂, h₃, fun h => ?_⟩
  exact absurd (h _ h₃ 1 rfl) (by simp)

end Server
end EpollChat
