import EpollChat.Proof.Server.Threads

/-!
# A login that outlives its connection

`isCurrentSessionValid(ctx, expectedFd)` compares `ctx->fd` with a number that was read from
`ctx->fd`. Neither `handleDisconnect` nor `handleAccept` changes the field of a context that
exists, so the guard holds whatever has become of the connection, and a login that finishes
late puts a dead connection into the online table.

The condition is what the guard is there for: the last one is evaluated while the context is
registered, and the context is not taken out of the client table between that guard and
`setOnlineUser`.
-/

namespace EpollChat
namespace Server

open Lib Machine

variable {R W : Nat}

/-! ## 1. The condition -/

/-- The login whose last guard is evaluated next. -/
def lastGuards : List Act → Option Login
  | .login .lastGuard l :: _ => some l
  | _ => none

/-- The login about to call `setOnlineUser`. -/
def Act.goesOnline : Act → Option Login
  | .login .setOnline l => some l
  | _ => none

/-- The context the next step takes out of the client table. -/
def evicted (w : World) : List Act → Option Nat
  | .disconnect .removeClient d :: _ => w.registry.clients d.fd
  | .accept .addClient c _ :: _ => (w.fdOf c).bind w.registry.clients
  | _ => none

/-- The last guard is evaluated for a registered context, and no context is taken out of the
    table that is about to go online. -/
def GuardedLogin (s : State R W) : Label R W → Prop
  | .move t _ =>
      (∀ l ∈ lastGuards (s.threads t), s.world.registry.clients l.expectedFd = some l.ctx) ∧
        ∀ c ∈ evicted s.world (s.threads t), ∀ t', ∀ a ∈ s.threads t', ∀ l ∈ a.goesOnline, l.ctx ≠ c
  | _ => True

instance (s : State R W) : DecidablePred (GuardedLogin s)
  | .move _ _ => inferInstanceAs (Decidable ((∀ _ ∈ _, _) ∧ ∀ _ ∈ _, ∀ _, ∀ _ ∈ _, ∀ _ ∈ _, _))
  | .epollWait .. | .accept .. | .send .. | .bindPacket .. | .loginPacket .. | .startLogin .. => isTrue trivial

/-! ## 2. From the guard to `setOnlineUser` -/

/-- Whoever is past the last guard is registered. -/
def PastGuard (s : State R W) : Prop :=
  ∀ ⦃t a l⦄, a ∈ s.threads t → a.goesOnline = some l →
    s.world.registry.clients l.expectedFd = some l.ctx

theorem goesOnline_of_plain {a : Act} (h : a.plain = true) : a.goesOnline = none := by
  cases a with
  | login stage l =>
    cases stage with
    | setOnline => exact absurd h (by simp [Act.plain])
    | _ => rfl
  | _ => rfl

theorem onEvent_goesOnline {c : Nat} {r : Ready} {a : Act} (h : a ∈ onEvent c r) :
    a.goesOnline = none := by
  rcases mem_onEvent h with rfl | rfl | rfl <;> rfl

theorem PastGuard.moved {s : State R W} {t : Thread R W} {answer : Answer} {act : Act}
    {rest acts : List Act} {w : World} {es : List Event} (hi : PastGuard s)
    (hq : GuardedLogin s (.move t answer)) (hth : s.threads t = act :: rest)
    (hd : Did s.world act w acts es) :
    PastGuard (⟨w, Function.update s.threads t (acts ++ rest)⟩ : State R W) := by
  obtain ⟨hguard, hevict⟩ := hq
  rw [hth] at hguard hevict
  -- the client table as it was, and no new step goes online
  have hsame : w.registry.clients = s.world.registry.clients → (∀ a ∈ acts, a.goesOnline = none) →
      PastGuard (⟨w, Function.update s.threads t (acts ++ rest)⟩ : State R W) := by
    intro hcl hacts t' a l ha hl
    show w.registry.clients l.expectedFd = some l.ctx
    rw [hcl]
    rcases mem_moved hth ha with ha | ha
    · rw [hacts a ha] at hl
      exact absurd hl (by simp)
    · exact hi ha hl
  cases hd with
  | lookup h => exact hsame rfl fun a ha => onEvent_goesOnline ha
  | write hs hacts hes =>
    refine hsame hs.clients fun a ha => ?_
    rcases hacts a ha with ⟨pc, rfl⟩ | ⟨fd, rfl⟩ <;> rfl
  | found h => exact hsame rfl (by simp [Act.goesOnline])
  | removeUser hs => exact hsame hs.clients (by simp [Act.goesOnline])
  | @removeClient d =>
    intro t' a l ha hl
    rcases mem_moved hth ha with ha | ha
    · rw [List.mem_singleton.mp ha] at hl
      exact absurd hl (by simp [Act.goesOnline])
    · have hreg := hi ha hl
      have hne : l.expectedFd ≠ d.fd := by
        intro heq
        rw [heq] at hreg
        exact hevict _ hreg t' a ha l hl rfl
      exact (Function.update_of_ne hne _ _).trans hreg
  | epollDel hs => exact hsame hs.clients (by simp [Act.goesOnline])
  | shutdown => exact hsame rfl (by simp [Act.goesOnline])
  | close => exact hsame rfl (by simp)
  | @addClient c e fd h =>
    intro t' a l ha hl
    rcases mem_moved hth ha with ha | ha
    · rw [List.mem_singleton.mp ha] at hl
      exact absurd hl (by simp [Act.goesOnline])
    · have hreg := hi ha hl
      have hne : l.expectedFd ≠ fd := by
        intro heq
        rw [heq] at hreg
        exact hevict l.ctx (Option.bind_eq_some_iff.mpr ⟨fd, h, hreg⟩) t' a ha l hl rfl
      exact (Function.update_of_ne hne _ _).trans hreg
  | @lastGuard l acts hacts =>
    intro t' a l' ha hl
    rcases mem_moved hth ha with ha | ha
    · rw [hacts a ha] at hl
      obtain rfl := Option.some.inj hl
      exact hguard l rfl
    · exact hi ha hl
  | setOnline hs hacts => exact hsame hs.clients fun a ha => goesOnline_of_plain (hacts a ha)
  | plain hs _ hacts => exact hsame hs.clients fun a ha => goesOnline_of_plain (hacts a ha)

theorem PastGuard.step {s s' : State R W} {l : Label R W} {es : List Event} (hi : PastGuard s)
    (hq : GuardedLogin s l) (h : Stepped s l s' es) : PastGuard s' := by
  cases h with
  | @started _ t w acts hs hacts hidle =>
    intro t' a l ha hl
    show w.registry.clients l.expectedFd = some l.ctx
    rw [hs.clients]
    rcases mem_update ha with ha | ha
    · rw [goesOnline_of_plain (hacts a ha)] at hl
      exact absurd hl (by simp)
    · exact hi ha hl
  | @accepted fd e hfree hidle =>
    intro t' a l ha hl
    rcases mem_update ha with ha | ha
    · rw [List.mem_singleton.mp ha] at hl
      exact absurd hl (by simp [Act.goesOnline])
    · exact hi ha hl
  | moved hth hd => exact hi.moved hq hth hd

/-- `setOnlineUser` was called for the context registered under the captured number. -/
def RegisteredOnline : Event → Prop
  | .online l entry => entry = some l.ctx
  | _ => True

theorem PastGuard.online {s s' : State R W} {l : Label R W} {es : List Event} (hi : PastGuard s)
    (h : Stepped s l s' es) : ∀ e ∈ es, RegisteredOnline e := by
  intro e he
  cases h with
  | started hs hacts hidle => exact absurd he (by simp)
  | accepted hfree hidle => exact absurd he (by simp)
  | @moved t answer act rest acts w es hth hd =>
    have hact := mem_of_next hth
    cases hd with
    | write hs hacts hes =>
      obtain ⟨fd, bytes, -, rfl⟩ := hes e he
      trivial
    | removeClient => rw [List.mem_singleton.mp he]; trivial
    | shutdown => rw [List.mem_singleton.mp he]; trivial
    | close => rw [List.mem_singleton.mp he]; trivial
    | setOnline _ _ =>
      rw [List.mem_singleton.mp he]
      exact hi hact rfl
    | _ => exact absurd he (by simp)

/-! ## 3. No dead connection goes online -/

/-- **A finished login registers a live connection** in a run in which the last guard of a
    login is evaluated while its context is registered, and the context stays so up to
    `setOnlineUser`. -/
theorem login_registers_live {ls : List (Label R W)} {s : State R W} {τ : List Event}
    (hr : run step {} ls = some (s, τ)) (hm : Meets step GuardedLogin {} ls) {l : Login}
    {entry : Option Nat} (h : .online l entry ∈ τ) : entry = some l.ctx := by
  have hstart : PastGuard ({} : State R W) := fun _ _ _ ha => absurd ha (by simp)
  refine run_events_of_meets (P := GuardedLogin) PastGuard RegisteredOnline ?_ hstart hm hr _ h
  intro s l s' es hi hq hs
  have hs := step_stepped hs
  exact ⟨hi.step hq hs, hi.online hs⟩

/-- A connection is accepted as descriptor 5, and the worker `i` begins its login. -/
def loginQueued (e : Fin R) (i : Fin W) : List (Label R W) :=
  comesIn 5 e ++ [.loginPacket i 0 (ascii "bob") true, .startLogin i]

/-- The login runs through; then the peer closes. -/
def loginInTime (e : Fin R) (i : Fin W) : List (Label R W) :=
  loginQueued e i ++ [.move (.worker i) .none, .move (.worker i) (.checked true), .move (.worker i) .none,
    .move (.worker i) .none] ++ endsStream ⟨5, true, false, false⟩ e

theorem login_registers_live_once : ∃ (s : State 1 2) (τ : List Event),
    run step {} (loginInTime 0 0) = some (s, τ) ∧ Event.online ⟨0, 5, ascii "bob"⟩ (some 0) ∈ τ ∧
    ∀ l entry, Event.online l entry ∈ τ → entry = some l.ctx := by
  obtain ⟨⟨s, τ⟩, hr, hτ⟩ := Option.map_eq_some_iff.mp (show (run step ({} : State 1 2)
    (loginInTime 0 0)).map (fun p => decide (Event.online ⟨0, 5, ascii "bob"⟩ (some 0) ∈ p.2))
      = some true by decide)
  exact ⟨s, τ, hr, of_decide_eq_true hτ,
    fun l entry h => login_registers_live hr (by decide) h⟩

/-- The worker `i` gets the answer of the database and goes to the end of its login. -/
def finishesLogin (i : Fin W) : List (Label R W) :=
  [.move (.worker i) (.checked true), .move (.worker i) .none, .move (.worker i) .none]

/-- The login of the second connection, context 1. -/
def logsInAgain (i : Fin W) : List (Label R W) :=
  [.loginPacket i 1 (ascii "bob") true, .startLogin i, .move (.worker i) .none]

/-- The peer closes while the worker `i` waits for the database, and connects again. -/
def lateLogin (e : Fin R) (i j : Fin W) : List (Label R W) :=
  loginQueued e i ++ [Label.move (.worker i) .none] ++ endsStream ⟨5, true, false, false⟩ e ++
    comesIn 6 e ++ logsInAgain j ++ finishesLogin j ++ finishesLogin i

/-- **A dead connection goes online.** While the database checks bob's password his peer
    closes, and the connection is gone. He connects again, as descriptor 6, and logs in. Then
    the first login finishes: its guards hold, and it overwrites the entry of the second. -/
theorem dead_connection_online : ∃ (ls : List (Label 1 2)) (s : State 1 2) (τ : List Event),
    run step {} ls = some (s, τ) ∧ .online ⟨0, 5, ascii "bob"⟩ none ∈ τ ∧
    .online ⟨1, 6, ascii "bob"⟩ (some 1) ∈ τ ∧ s.world.registry.clients 5 = none ∧
    s.world.registry.clients 6 = some 1 ∧ s.world.registry.users (ascii "bob") = some 0 := by
  obtain ⟨⟨s, τ⟩, hr, hτ⟩ := Option.map_eq_some_iff.mp (show (run step ({} : State 1 2) (lateLogin 0 0 1)).map
    (fun p => decide (Event.online ⟨0, 5, ascii "bob"⟩ none ∈ p.2 ∧
      Event.online ⟨1, 6, ascii "bob"⟩ (some 1) ∈ p.2 ∧ p.1.world.registry.clients 5 = none ∧
      p.1.world.registry.clients 6 = some 1 ∧
      p.1.world.registry.users (ascii "bob") = some 0)) = some true by decide)
  obtain ⟨h₁, h₂, h₃, h₄, h₅⟩ := of_decide_eq_true hτ
  exact ⟨lateLogin 0 0 1, s, τ, hr, h₁, h₂, h₃, h₄, h₅⟩

end Server
end EpollChat
