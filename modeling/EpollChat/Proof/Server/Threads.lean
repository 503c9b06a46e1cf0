import EpollChat.Server.Threads

/-!
# What a step of a server thread can do

The invariants about descriptors and logins look at few things: the client table, the
descriptor table, the descriptor of each context, and four kinds of steps a thread may have
before it. `Same` says that a step leaves the tables alone, `Act.plain` that a step is of no
such kind, and `Did` what each step does in these terms.
-/

namespace EpollChat
namespace Server

open Lib Machine
open Output (WriterPc)

/-! ## 1. Steps that leave the tables alone -/

structure Same (w w' : World) : Prop where
  sockets : w'.sockets = w.sockets
  clients : w'.registry.clients = w.registry.clients
  fds : ∀ c, w'.fdOf c = w.fdOf c
  next : w'.registry.nextCtx = w.registry.nextCtx

theorem Same.refl (w : World) : Same w w := ⟨rfl, rfl, fun _ => rfl, rfl⟩

theorem Same.modifyCtx (w : World) (c : Nat) {f : ClientContext → ClientContext}
    (hf : ∀ ctx, (f ctx).fd = ctx.fd) : Same w (w.modifyCtx c f) := by
  refine ⟨rfl, rfl, fun c' => ?_, rfl⟩
  show (Function.update w.registry.contexts c ((w.registry.contexts c).map f) c').map (·.fd) = _
  by_cases hc : c' = c
  · subst hc
    rw [Function.update_self, Option.map_map]
    exact Option.map_congr fun ctx _ => hf ctx
  · rw [Function.update_of_ne hc]
    rfl

theorem Same.setQueue (w : World) (c : Nat) (q : SendQueue) : Same w (w.setQueue c q) :=
  Same.modifyCtx w c fun _ => rfl

theorem Same.modInterest (w : World) (ctx : ClientContext) (out : Bool) :
    Same w (w.modInterest ctx out) := by
  unfold World.modInterest
  split
  · exact Same.refl w
  · exact ⟨rfl, rfl, fun _ => rfl, rfl⟩

theorem Same.setOnlineUser (w : World) (accountID : Bytes) (c : Nat) :
    Same w { w with registry := w.registry.setOnlineUser accountID c } := by
  unfold Registry.setOnlineUser
  split
  · exact Same.refl w
  · exact ⟨rfl, rfl, fun _ => rfl, rfl⟩

theorem Same.removeOnlineUser (w : World) (accountID : Bytes) :
    Same w { w with registry := w.registry.removeOnlineUser accountID } := by
  unfold Registry.removeOnlineUser
  split
  · exact Same.refl w
  · exact ⟨rfl, rfl, fun _ => rfl, rfl⟩

/-! ## 2. What a step does -/

/-- Neither in `handleWrite` nor in `handleDisconnect` past its lookup, nor a registration,
    nor a login past its last guard. -/
def Act.plain : Act → Bool
  | .write _ _ => false
  | .disconnect _ _ => false
  | .accept .addClient _ _ => false
  | .login .setOnline _ => false
  | _ => true

inductive Did (w : World) : Act → World → List Act → List Event → Prop where
  | lookup {r : Ready} {c : Nat} (h : w.registry.clients r.fd = some c) :
      Did w (.event r) w (onEvent c r) []
  | write {c : Nat} {pc : WriterPc} {w' : World} {acts : List Act} {es : List Event}
      (hs : Same w w')
      (hacts : ∀ a ∈ acts, (∃ pc', a = .write c pc') ∨ ∃ fd, a = .handleDisconnect fd c)
      (hes : ∀ e ∈ es, ∃ fd bytes, w.fdOf c = some fd ∧ e = .passed c fd (w.sockets fd) bytes) :
      Did w (.write c pc) w' acts es
  | found {fd onBehalf c : Nat} (h : w.registry.clients fd = some c) :
      Did w (.handleDisconnect fd onBehalf) w [.disconnect .removeUser ⟨fd, onBehalf, c⟩] []
  | removeUser {d : Disconnect} {w' : World} (hs : Same w w') :
      Did w (.disconnect .removeUser d) w' [.disconnect .removeClient d] []
  | removeClient {d : Disconnect} :
      Did w (.disconnect .removeClient d) { w with registry := w.registry.removeClientCtx d.fd }
        [.disconnect .epollDel d] [.unregistered d (w.registry.clients d.fd)]
  | epollDel {d : Disconnect} {w' : World} (hs : Same w w') :
      Did w (.disconnect .epollDel d) w' [.disconnect .shutdown d] []
  | shutdown {d : Disconnect} :
      Did w (.disconnect .shutdown d) w [.disconnect .close d] [.shutdown d (w.sockets d.fd)]
  | close {d : Disconnect} :
      Did w (.disconnect .close d) (w.closeFd d.fd) [] [.closed d (w.sockets d.fd)]
  | addClient {c e fd : Nat} (h : w.fdOf c = some fd) :
      Did w (.accept .addClient c e) { w with registry := w.registry.addClientCtx c fd }
        [.accept .assignReactor c e] []
  | lastGuard {l : Login} {acts : List Act} (hacts : ∀ a ∈ acts, a = .login .setOnline l) :
      Did w (.login .lastGuard l) w acts []
  | setOnline {l : Login} {w' : World} {acts : List Act} (hs : Same w w')
      (hacts : ∀ a ∈ acts, a.plain = true) :
      Did w (.login .setOnline l) w' acts [.online l (w.registry.clients l.expectedFd)]
  | plain {act : Act} {w' : World} {acts : List Act} (hs : Same w w')
      (hact : act.plain = true) (hacts : ∀ a ∈ acts, a.plain = true) : Did w act w' acts []

theorem fdOf_of_contexts {w : World} {c : Nat} {ctx : ClientContext}
    (h : w.registry.contexts c = some ctx) : w.fdOf c = some ctx.fd := by
  rw [World.fdOf, h]
  rfl

theorem handleWrite_did {w w' : World} {c : Nat} {ctx : ClientContext} {pc : WriterPc}
    {answer : Answer} {acts : List Act} {es : List Event} (hctx : w.registry.contexts c = some ctx)
    (h : handleWrite w c ctx pc answer = some (w', acts, es)) : Did w (.write c pc) w' acts es := by
  have hpassed : ∀ bytes, ∀ e ∈ [Event.passed c ctx.fd (w.sockets ctx.fd) bytes],
      ∃ fd bytes, w.fdOf c = some fd ∧ e = .passed c fd (w.sockets fd) bytes := by
    intro bytes e he
    exact ⟨ctx.fd, bytes, fdOf_of_contexts hctx, List.mem_singleton.mp he⟩
  unfold handleWrite at h
  split at h
  · split at h
    · split at h
      · simp only [Option.some.injEq, Prod.mk.injEq] at h
        obtain ⟨rfl, rfl, rfl⟩ := h
        exact .write (Same.setQueue ..) (by simp) (by simp)
      · simp only [Option.some.injEq, Prod.mk.injEq] at h
        obtain ⟨rfl, rfl, rfl⟩ := h
        exact .write (Same.setQueue ..) (by simp) (by simp)
    · simp only [Option.some.injEq, Prod.mk.injEq] at h
      obtain ⟨rfl, rfl, rfl⟩ := h
      exact .write (Same.refl w) (by simp) (by simp)
  · -- the system call
    unfold kernelSend at h
    split at h
    · split at h
      · simp only [Option.some.injEq, Prod.mk.injEq] at h
        obtain ⟨rfl, rfl, rfl⟩ := h
        exact .write (Same.refl w) (by simp) (hpassed _)
      · exact absurd h (by simp)
    · split at h
      · simp only [Option.some.injEq, Prod.mk.injEq] at h
        obtain ⟨rfl, rfl, rfl⟩ := h
        exact .write (Same.refl w) (by simp) (hpassed _)
      · exact absurd h (by simp)
    · simp only [Option.some.injEq, Prod.mk.injEq] at h
      obtain ⟨rfl, rfl, rfl⟩ := h
      exact .write (Same.refl w) (by simp) (hpassed _)
  · simp only [Option.some.injEq, Prod.mk.injEq] at h
    obtain ⟨rfl, rfl, rfl⟩ := h
    exact .write (Same.setQueue ..) (by simp) (by simp)
  · simp only [Option.some.injEq, Prod.mk.injEq] at h
    obtain ⟨rfl, rfl, rfl⟩ := h
    refine .write (Same.setQueue ..) (fun a ha => ?_) (by simp)
    split at ha
    · exact Or.inl ⟨.disabling, List.mem_singleton.mp ha⟩
    · exact absurd ha (by simp)
  · simp only [Option.some.injEq, Prod.mk.injEq] at h
    obtain ⟨rfl, rfl, rfl⟩ := h
    exact .write (Same.modInterest ..) (by simp) (by simp)
  · simp only [Option.some.injEq, Prod.mk.injEq] at h
    obtain ⟨rfl, rfl, rfl⟩ := h
    exact .write (Same.refl w) (by simp) (by simp)
  · exact absurd h (by simp)

theorem handleRead_did {w w' : World} {c : Nat} {ctx : ClientContext} {answer : Answer}
    {acts : List Act} {es : List Event}
    (h : handleRead w c ctx answer = some (w', acts, es)) : Did w (.handleRead c) w' acts es := by
  unfold handleRead at h
  split at h
  · simp only [Option.some.injEq, Prod.mk.injEq] at h
    obtain ⟨rfl, rfl, rfl⟩ := h
    exact .plain (Same.refl w) rfl (by simp [Act.plain])
  · split at h
    · simp only [Option.some.injEq, Prod.mk.injEq] at h
      obtain ⟨rfl, rfl, rfl⟩ := h
      refine .plain (Same.refl w) rfl fun a ha => ?_
      obtain ⟨reply, -, rfl⟩ := List.mem_map.mp ha
      cases reply <;> rfl
    · exact absurd h (by simp)
  · exact absurd h (by simp)

theorem sendPacket_did {w w' : World} {c : Nat} {ctx : ClientContext} {type : UInt16} {data : Bytes}
    {acts : List Act} {es : List Event}
    (h : sendPacket w c ctx type data = some (w', acts, es)) :
    Did w (.sendPacket c type data) w' acts es := by
  unfold sendPacket at h
  split at h
  · exact absurd h (by simp)
  · simp only [Option.some.injEq, Prod.mk.injEq] at h
    obtain ⟨rfl, rfl, rfl⟩ := h
    exact .plain (Same.setQueue ..) rfl (by simp [Act.plain])
  · simp only [Option.some.injEq, Prod.mk.injEq] at h
    obtain ⟨rfl, rfl, rfl⟩ := h
    refine .plain (Same.setQueue ..) rfl fun a ha => ?_
    split at ha
    · rw [List.mem_singleton.mp ha]
      rfl
    · exact absurd ha (by simp)

theorem handleDisconnect_did (w : World) (d : Disconnect) (ctx : ClientContext)
    (stage : DisconnectStage) :
    Did w (.disconnect stage d) (handleDisconnect w d ctx stage).1 (handleDisconnect w d ctx stage).2.1
      (handleDisconnect w d ctx stage).2.2 := by
  cases stage with
  | removeUser =>
    refine .removeUser ?_
    simp only [handleDisconnect]
    split
    · exact Same.refl w
    · exact Same.removeOnlineUser ..
  | removeClient => exact .removeClient
  | epollDel =>
    refine .epollDel ?_
    simp only [handleDisconnect]
    split
    · exact Same.refl w
    · exact ⟨rfl, rfl, fun _ => rfl, rfl⟩
  | shutdown => exact .shutdown
  | close => exact .close

theorem handleAccept_did {w : World} {c e : Nat} {ctx : ClientContext}
    (hctx : w.registry.contexts c = some ctx) (stage : AcceptStage) :
    Did w (.accept stage c e) (handleAccept w c e ctx stage).1 (handleAccept w c e ctx stage).2.1
      (handleAccept w c e ctx stage).2.2 := by
  cases stage with
  | addClient => exact .addClient (fdOf_of_contexts hctx)
  | assignReactor => exact .plain (Same.modifyCtx w c fun _ => rfl) rfl (by simp [handleAccept, Act.plain])
  | epollAdd =>
    refine .plain ?_ rfl (by simp [handleAccept])
    simp only [handleAccept]
    split
    · exact ⟨rfl, rfl, fun _ => rfl, rfl⟩
    · exact Same.refl w

theorem mem_guarded {ctx : ClientContext} {l : Login} {acts : List Act} {a : Act}
    (h : a ∈ guarded ctx l acts) : a ∈ acts := by
  unfold guarded at h
  split at h
  · exact h
  · exact absurd h (by simp)

theorem login_did {w w' : World} {l : Login} {ctx : ClientContext} {stage : LoginStage}
    {answer : Answer} {acts : List Act} {es : List Event}
    (h : login w l ctx stage answer = some (w', acts, es)) : Did w (.login stage l) w' acts es := by
  unfold login at h
  split at h
  · simp only [Option.some.injEq, Prod.mk.injEq] at h
    obtain ⟨rfl, rfl, rfl⟩ := h
    refine .plain (Same.refl w) rfl fun a ha => ?_
    rw [List.mem_singleton.mp (mem_guarded ha)]
    rfl
  · next ok =>
    simp only [Option.some.injEq, Prod.mk.injEq] at h
    obtain ⟨rfl, rfl, rfl⟩ := h
    refine .plain (Same.refl w) rfl fun a ha => ?_
    rw [List.mem_singleton.mp ha]
    cases ok <;> rfl
  · simp only [Option.some.injEq, Prod.mk.injEq] at h
    obtain ⟨rfl, rfl, rfl⟩ := h
    refine .plain (Same.refl w) rfl fun a ha => ?_
    rw [List.mem_singleton.mp (mem_guarded ha)]
    rfl
  · simp only [Option.some.injEq, Prod.mk.injEq] at h
    obtain ⟨rfl, rfl, rfl⟩ := h
    exact .lastGuard fun a ha => List.mem_singleton.mp (mem_guarded ha)
  · simp only [Option.some.injEq, Prod.mk.injEq] at h
    obtain ⟨rfl, rfl, rfl⟩ := h
    exact .setOnline (Same.setOnlineUser ..) (by simp [Act.plain])
  · simp only [Option.some.injEq, Prod.mk.injEq] at h
    obtain ⟨rfl, rfl, rfl⟩ := h
    refine .plain (Same.refl w) rfl fun a ha => ?_
    rw [List.mem_singleton.mp (mem_guarded ha)]
    rfl
  · simp only [Option.some.injEq, Prod.mk.injEq] at h
    obtain ⟨rfl, rfl, rfl⟩ := h
    refine .plain (Same.refl w) rfl fun a ha => ?_
    obtain ⟨msg, -, rfl⟩ := List.mem_map.mp (mem_guarded ha)
    rfl
  · exact absurd h (by simp)

/-- **What a step does**, whatever the answer. -/
theorem exec_did {w w' : World} {act : Act} {answer : Answer} {acts : List Act} {es : List Event}
    (h : exec w act answer = some (w', acts, es)) : Did w act w' acts es := by
  cases act with
  | event r =>
    simp only [exec] at h
    split at h
    · simp only [Option.some.injEq, Prod.mk.injEq] at h
      obtain ⟨rfl, rfl, rfl⟩ := h
      exact .plain (Same.refl w) rfl (by simp)
    · split at h
      · simp only [Option.some.injEq, Prod.mk.injEq] at h
        obtain ⟨rfl, rfl, rfl⟩ := h
        exact .plain (Same.refl w) rfl (by simp)
      · next hc =>
        simp only [Option.some.injEq, Prod.mk.injEq] at h
        obtain ⟨rfl, rfl, rfl⟩ := h
        exact .lookup hc
  | handleRead c =>
    obtain ⟨ctx, -, h⟩ := Option.bind_eq_some_iff.mp h
    exact handleRead_did h
  | write c pc =>
    obtain ⟨ctx, hctx, h⟩ := Option.bind_eq_some_iff.mp h
    exact handleWrite_did hctx h
  | sendPacket c type data =>
    obtain ⟨ctx, -, h⟩ := Option.bind_eq_some_iff.mp h
    exact sendPacket_did h
  | enableWrite c =>
    obtain ⟨ctx, -, h⟩ := Option.map_eq_some_iff.mp h
    simp only [Prod.mk.injEq] at h
    obtain ⟨rfl, rfl, rfl⟩ := h
    exact .plain (Same.modInterest ..) rfl (by simp)
  | handleDisconnect fd onBehalf =>
    simp only [exec] at h
    split at h
    · simp only [Option.some.injEq, Prod.mk.injEq] at h
      obtain ⟨rfl, rfl, rfl⟩ := h
      exact .plain (Same.refl w) rfl (by simp)
    · next hc =>
      simp only [Option.some.injEq, Prod.mk.injEq] at h
      obtain ⟨rfl, rfl, rfl⟩ := h
      exact .found hc
  | disconnect stage d =>
    obtain ⟨ctx, -, h⟩ := Option.map_eq_some_iff.mp h
    have hd := handleDisconnect_did w d ctx stage
    rw [h] at hd
    exact hd
  | accept stage c e =>
    obtain ⟨ctx, hctx, h⟩ := Option.map_eq_some_iff.mp h
    have hd := handleAccept_did (e := e) hctx stage
    rw [h] at hd
    exact hd
  | login stage l =>
    obtain ⟨ctx, -, h⟩ := Option.bind_eq_some_iff.mp h
    exact login_did h
  | setOnlineUser c accountID =>
    simp only [exec, Option.some.injEq, Prod.mk.injEq] at h
    obtain ⟨rfl, rfl, rfl⟩ := h
    exact .plain (Same.setOnlineUser ..) rfl (by simp)
  | setAccount c accountID =>
    simp only [exec, Option.some.injEq, Prod.mk.injEq] at h
    obtain ⟨rfl, rfl, rfl⟩ := h
    exact .plain (Same.modifyCtx w c fun _ => rfl) rfl (by simp)

/-! ## 3. What a label does -/

variable {R W : Nat}

/-- The world after `accept4` and `make_shared`. -/
def World.accepted (w : World) (fd : Nat) : World :=
  { w with
    registry := w.registry.makeCtx fd
    sockets := Function.update w.sockets fd (some w.registry.nextCtx) }

/-- An idle thread starts something, a connection is accepted, or a thread takes its next
    step. -/
inductive Stepped (s : State R W) : Label R W → State R W → List Event → Prop where
  | started {l : Label R W} {t : Thread R W} {w : World} {acts : List Act} (hs : Same s.world w)
      (hacts : ∀ a ∈ acts, a.plain = true) (hidle : s.threads t = []) :
      Stepped s l ⟨w, Function.update s.threads t acts⟩ []
  | accepted {fd : Nat} {e : Fin R} (hfree : s.world.sockets fd = none)
      (hidle : s.threads .acceptor = []) :
      Stepped s (.accept fd e)
        ⟨s.world.accepted fd,
          Function.update s.threads .acceptor [.accept .addClient s.world.registry.nextCtx e]⟩ []
  | moved {t : Thread R W} {answer : Answer} {act : Act} {rest acts : List Act} {w : World}
      {es : List Event} (hth : s.threads t = act :: rest) (hd : Did s.world act w acts es) :
      Stepped s (.move t answer) ⟨w, Function.update s.threads t (acts ++ rest)⟩ es

theorem start_stepped {s s' : State R W} {l : Label R W} {t : Thread R W} {w : World}
    {acts : List Act} {es : List Event} (hs : Same s.world w) (hacts : ∀ a ∈ acts, a.plain = true)
    (h : start s t w acts = some (s', es)) : Stepped s l s' es := by
  unfold start at h
  split at h
  · next hidle =>
    simp only [Option.some.injEq, Prod.mk.injEq] at h
    obtain ⟨rfl, rfl⟩ := h
    exact .started hs hacts hidle
  · exact absurd h (by simp)

theorem step_stepped {s s' : State R W} {l : Label R W} {es : List Event}
    (h : step s l = some (s', es)) : Stepped s l s' es := by
  cases l with
  | epollWait e ready =>
    simp only [step] at h
    split at h
    · refine start_stepped (Same.refl _) (fun a ha => ?_) h
      obtain ⟨r, -, rfl⟩ := List.mem_map.mp ha
      rfl
    · exact absurd h (by simp)
  | accept fd e =>
    simp only [step] at h
    split at h
    · next hfree =>
      unfold start at h
      split at h
      · next hidle =>
        simp only [Option.some.injEq, Prod.mk.injEq] at h
        obtain ⟨rfl, rfl⟩ := h
        exact .accepted hfree hidle
      · exact absurd h (by simp)
    · exact absurd h (by simp)
  | send i c type data =>
    obtain ⟨fd, -, h⟩ := Option.bind_eq_some_iff.mp h
    exact start_stepped (Same.refl _) (by simp [Act.plain]) h
  | bindPacket i c senderID =>
    obtain ⟨fd, -, h⟩ := Option.bind_eq_some_iff.mp h
    refine start_stepped (Same.refl _) (fun a ha => ?_) h
    split at ha
    · exact absurd ha (by simp)
    · simp only [List.mem_cons, List.not_mem_nil, or_false] at ha
      rcases ha with rfl | rfl <;> rfl
  | loginPacket i c username queued =>
    obtain ⟨fd, -, h⟩ := Option.bind_eq_some_iff.mp h
    cases queued with
    | true =>
      rw [if_pos rfl] at h
      refine start_stepped ?_ ?_ h
      · exact ⟨rfl, rfl, fun _ => rfl, rfl⟩
      · simp
    | false => exact start_stepped (Same.refl _) (by simp [Act.plain]) h
  | startLogin i =>
    simp only [step] at h
    split at h
    · exact absurd h (by simp)
    · refine start_stepped ?_ ?_ h
      · exact ⟨rfl, rfl, fun _ => rfl, rfl⟩
      · simp [Act.plain]
  | move t answer =>
    simp only [step] at h
    split at h
    · exact absurd h (by simp)
    · next act rest hth =>
      obtain ⟨⟨w, acts, es'⟩, ho, h⟩ := Option.map_eq_some_iff.mp h
      simp only [Prod.mk.injEq] at h
      obtain ⟨rfl, rfl⟩ := h
      exact .moved hth (exec_did ho)

/-- What an event of `epoll_wait` makes the reactor do. -/
theorem mem_onEvent {c : Nat} {r : Ready} {a : Act} (h : a ∈ onEvent c r) :
    a = .handleRead c ∨ a = .write c (.loop 0) ∨ a = .handleDisconnect r.fd c := by
  unfold onEvent at h
  simp only [List.mem_append] at h
  rcases h with h | h | h
  · split at h
    · exact Or.inl (List.mem_singleton.mp h)
    · exact absurd h (by simp)
  · split at h
    · exact Or.inr (Or.inl (List.mem_singleton.mp h))
    · exact absurd h (by simp)
  · split at h
    · exact Or.inr (Or.inr (List.mem_singleton.mp h))
    · exact absurd h (by simp)

theorem mem_of_next {threads : Thread R W → List Act} {t : Thread R W} {act : Act} {rest : List Act}
    (hth : threads t = act :: rest) : act ∈ threads t := by
  rw [hth]
  exact List.mem_cons_self

/-- A step a thread has before it was there already, or is new. -/
theorem mem_update {threads : Thread R W → List Act} {t t' : Thread R W} {acts : List Act} {a : Act}
    (h : a ∈ Function.update threads t acts t') : a ∈ acts ∨ a ∈ threads t' := by
  by_cases ht : t' = t
  · subst ht
    rw [Function.update_self] at h
    exact Or.inl h
  · rw [Function.update_of_ne ht] at h
    exact Or.inr h

theorem mem_moved {threads : Thread R W → List Act} {t t' : Thread R W} {act : Act}
    {acts rest : List Act} {a : Act} (hth : threads t = act :: rest)
    (h : a ∈ Function.update threads t (acts ++ rest) t') : a ∈ acts ∨ a ∈ threads t' := by
  by_cases ht : t' = t
  · subst ht
    rw [Function.update_self] at h
    rcases List.mem_append.mp h with h | h
    · exact Or.inl h
    · exact Or.inr (by rw [hth]; exact List.mem_cons_of_mem _ h)
  · rw [Function.update_of_ne ht] at h
    exact Or.inr h

/-! ## 4. Who owns a descriptor -/

/-- The descriptor of `c` is `fd`, and `fd` denotes the socket accepted for `c`. -/
def World.Owns (w : World) (c fd : Nat) : Prop := w.fdOf c = some fd ∧ w.sockets fd = some c

theorem Same.owns {w w' : World} (hs : Same w w') {c fd : Nat} : w'.Owns c fd ↔ w.Owns c fd := by
  unfold World.Owns
  rw [hs.fds, hs.sockets]

/-- No context has a number that is still to be given out. -/
def World.Fresh (w : World) : Prop := ∀ c, w.registry.nextCtx ≤ c → w.fdOf c = none

theorem Same.fresh {w w' : World} (hs : Same w w') (h : w.Fresh) : w'.Fresh := by
  intro c hc
  rw [hs.next] at hc
  rw [hs.fds]
  exact h c hc

theorem World.Fresh.ne {w : World} (h : w.Fresh) {c fd : Nat} (hc : w.fdOf c = some fd) :
    c ≠ w.registry.nextCtx := by
  rintro rfl
  rw [h _ (Nat.le_refl _)] at hc
  exact absurd hc (by simp)

theorem World.accepted_fdOf_new (w : World) (fd : Nat) :
    (w.accepted fd).fdOf w.registry.nextCtx = some fd := by
  show (Function.update w.registry.contexts w.registry.nextCtx (some { fd := fd })
    w.registry.nextCtx).map (·.fd) = some fd
  rw [Function.update_self]
  rfl

theorem World.accepted_fdOf_old (w : World) (fd : Nat) {c : Nat} (hc : c ≠ w.registry.nextCtx) :
    (w.accepted fd).fdOf c = w.fdOf c := by
  show (Function.update w.registry.contexts w.registry.nextCtx (some { fd := fd }) c).map (·.fd) = _
  rw [Function.update_of_ne hc]
  rfl

theorem World.accepted_fresh {w : World} (h : w.Fresh) (fd : Nat) : (w.accepted fd).Fresh := by
  intro c hc
  have hc' : w.registry.nextCtx + 1 ≤ c := hc
  rw [World.accepted_fdOf_old w fd (by omega)]
  exact h c (by omega)

/-- A new connection gets a number nobody owns. -/
theorem World.Owns.accepted {w : World} {c f fd : Nat} (hfresh : w.Fresh)
    (hfree : w.sockets fd = none) (h : w.Owns c f) : (w.accepted fd).Owns c f := by
  refine ⟨by rw [World.accepted_fdOf_old w fd (hfresh.ne h.1)]; exact h.1, ?_⟩
  have hne : f ≠ fd := by
    rintro rfl
    rw [h.2] at hfree
    exact absurd hfree (by simp)
  exact (Function.update_of_ne hne _ _).trans h.2

theorem World.owns_accepted (w : World) (fd : Nat) :
    (w.accepted fd).Owns w.registry.nextCtx fd :=
  ⟨World.accepted_fdOf_new w fd, Function.update_self ..⟩

theorem World.Owns.closeFd {w : World} {c f fd : Nat} (h : w.Owns c f) (hne : f ≠ fd) :
    (w.closeFd fd).Owns c f := ⟨h.1, (Function.update_of_ne hne _ _).trans h.2⟩

/-! ## 5. Pieces of runs -/

/-- The acceptor takes in a connection as `fd` and gives it to the reactor `e`. -/
def comesIn (fd : Nat) (e : Fin R) : List (Label R W) :=
  .accept fd e :: List.replicate 3 (.move .acceptor .none)

/-- `handleRead` meets the end of the stream, and the connection is closed. -/
def endsStream (r : Ready) (e : Fin R) : List (Label R W) :=
  [.epollWait e [r], .move (.reactor e) .none, .move (.reactor e) (.read .disconnect)]
    ++ List.replicate 6 (.move (.reactor e) .none)

end Server
end EpollChat
