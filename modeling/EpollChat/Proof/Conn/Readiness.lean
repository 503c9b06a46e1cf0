import EpollChat.Conn.Readiness
import EpollChat.Proof.Conn.Framing
import EpollChat.Proof.Conn.StreamEnd

/-!
# Nothing stays unread

An edge comes once. What `handleRead` leaves in the socket is read only if something puts
the descriptor back on the ready list, so the code has to rely on two facts: `handleRead`
goes on until `EAGAIN`, and what arrives after that is an edge of its own. `Awake` is the
invariant they make, and it is the same whether the bytes come before `addFd`, between two
`recv`s or behind the packet loop.

`Delivered` says the rest: the packets handed over are those complete in the bytes the
last packet loop saw, and the buffer holds what has been received since. Together they
give `arrived_read`: whatever the order of arrivals, edges and system calls, the reactor
is done with the connection after a bounded number of steps, and when it is, every packet
that has arrived has been handed over.
-/

namespace EpollChat
namespace Readiness

open Input Lib Machine

/-! ## 1. What a step can do -/

theorem arrived_append (τ τ' : List Event) : arrived (τ ++ τ') = arrived τ ++ arrived τ' := by
  simp [arrived]

theorem handedOver_append (τ τ' : List Event) :
    handedOver (τ ++ τ') = handedOver τ ++ handedOver τ' := by
  simp [handedOver]

/-- Bytes received, or the way out of the loop. -/
theorem recv_cases {s s' : State} {r : RecvResult} (h : recv s r = some s') :
    (∃ bytes rest b, r = .data bytes ∧ s.disconnected = false ∧ bytes ≠ [] ∧ s.queue = bytes ++ rest ∧
      s.buffer.append bytes = some b ∧ bytes.length ≤ READ_BUFFER_SIZE ∧
      s' = { s with queue := rest, buffer := b }) ∨
    (r = .wouldBlock ∧ s.disconnected = false ∧ s.queue = [] ∧ s.closed = false ∧
      s' = { s with reader := .parsing }) ∨
    ((r = .closed ∧ s.closed = true ∨ r = .failed) ∧ s' = { s with reader := .failing }) := by
  cases r with
  | data bytes =>
    simp only [recv] at h
    split at h
    · next hc =>
      obtain ⟨hd, hne, hlen, rest, hq⟩ := hc
      cases hb : s.buffer.append bytes with
      | none => rw [hb] at h; exact absurd h (by simp)
      | some b =>
        rw [hb] at h
        simp only [Option.some.injEq] at h
        refine Or.inl ⟨bytes, rest, b, rfl, hd, hne, hq.symm, hb, hlen, ?_⟩
        rw [← h, ← hq, List.drop_left]
    · exact absurd h (by simp)
  | closed =>
    simp only [recv] at h
    split at h
    · next hc => exact Or.inr (Or.inr ⟨Or.inl ⟨rfl, hc.2.2⟩, (Option.some.inj h).symm⟩)
    · exact absurd h (by simp)
  | wouldBlock =>
    simp only [recv] at h
    split at h
    · next hc => exact Or.inr (Or.inl ⟨rfl, hc.1, hc.2.1, hc.2.2, (Option.some.inj h).symm⟩)
    · exact absurd h (by simp)
  | failed => exact Or.inr (Or.inr ⟨Or.inr rfl, (Option.some.inj h).symm⟩)

/-- The packet loop does not look at the socket. -/
theorem parse_keeps {s s' : State} {fuel : Nat} {es : List Event} (h : parse s fuel = some (s', es)) :
    s'.queue = s.queue ∧ s'.closed = s.closed ∧ s'.registered = s.registered ∧ s'.event = s.event ∧
      s'.disconnected = s.disconnected := by
  unfold parse at h
  split at h
  · exact absurd h (by simp)
  · simp only [Option.some.injEq, Prod.mk.injEq] at h
    obtain ⟨rfl, rfl⟩ := h
    exact ⟨rfl, rfl, rfl, rfl, rfl⟩
  · simp only [Option.some.injEq, Prod.mk.injEq] at h
    obtain ⟨rfl, rfl⟩ := h
    exact ⟨rfl, rfl, rfl, rfl, rfl⟩

/-! ## 2. The invariant -/

variable {ps : List Packet}

/-- The last packet loop saw `seen`; what has come since is in the buffer, as far as it has
    been received. -/
structure Delivered (ps : List Packet) (s : State) (τ : List Event) : Prop where
  ok : s.buffer.Ok
  cut : ∃ seen new, arrived τ = seen ++ (new ++ s.queue) ∧
    s.buffer.content = (progress ps seen).tail ++ new ∧
    Reads (handedOver τ) (progress ps seen).complete ∧ (s.reader = .idle → new = [])

/-- The reactor is going to look at the socket again if there is something to see. -/
def Awake (s : State) : Prop :=
  s.registered = true → s.reader = .idle ∨ s.reader = .parsing → readable s = true → s.event = true

structure Sound (ps : List Packet) (s : State) (τ : List Event) : Prop where
  out : s.disconnected = true → s.registered = false
  delivered : s.disconnected = false → arrived τ <+: frames ps → Delivered ps s τ
  awake : Awake s

theorem reads_append {xs ys : List Extracted} {qs rs : List Packet} (hx : Reads xs qs)
    (hy : Reads ys rs) : Reads (xs ++ ys) (qs ++ rs) := by
  unfold Reads at hx hy ⊢
  rw [List.map_append, List.map_append, hx, hy]

/-- Steps that leave the bytes alone, and do not return to `idle`. -/
theorem Delivered.congr {s s' : State} {τ : List Event} (h : Delivered ps s τ)
    (hq : s'.queue = s.queue) (hb : s'.buffer = s.buffer) (hr : s'.reader = .idle → s.reader = .idle) :
    Delivered ps s' τ := by
  obtain ⟨seen, new, ha, hc, hx, hn⟩ := h.cut
  refine ⟨hb ▸ h.ok, seen, new, ?_, ?_, hx, fun hi => hn (hr hi)⟩
  · rw [hq]
    exact ha
  · rw [hb]
    exact hc

/-- What the packet loop is going to see is a head of the packets still coming. -/
theorem Delivered.within {s : State} {τ : List Event} (hsent : arrived τ <+: frames ps) {seen new : Bytes}
    (ha : arrived τ = seen ++ (new ++ s.queue)) (hc : s.buffer.content = (progress ps seen).tail ++ new) :
    s.buffer.content <+: frames (progress ps seen).coming ++ [] := by
  rw [hc]
  refine progress_within ?_
  rw [List.append_nil]
  refine List.IsPrefix.trans ?_ hsent
  rw [ha, ← List.append_assoc]
  exact List.prefix_append _ _

/-- **The packet loop** hands over what has become complete. -/
theorem Delivered.parse {s s' : State} {τ es : List Event} {fuel : Nat} (h : Delivered ps s τ)
    (hsent : arrived τ <+: frames ps) (hs : parse s fuel = some (s', es)) :
    Delivered ps s' (τ ++ es) ∧ s'.reader = .idle ∧ arrived es = [] := by
  obtain ⟨seen, new, ha, hc, hx, -⟩ := h.cut
  have hpre := Delivered.within hsent ha hc
  cases hl : parseLoop fuel s.buffer [] with
  | none =>
    simp only [Readiness.parse, hl] at hs
    exact absurd hs (by simp)
  | some r =>
    have hdec := decodeEnds_of_parseLoop h.ok hpre hl
    obtain ⟨n, b, xs, hends, hok, hb, hxs⟩ := parseLoop_ends (by simp) [] h.ok hpre hdec
    have hr : r = (b, [] ++ xs, false) := by
      have h₁ := parseLoop_mono (Nat.le_max_left fuel n) hl
      rw [hends _ (Nat.le_max_right fuel n)] at h₁
      exact (Option.some.inj h₁).symm
    simp only [Readiness.parse, hl, hr, Option.some.injEq, Prod.mk.injEq] at hs
    obtain ⟨rfl, rfl⟩ := hs
    refine ⟨⟨hok, seen ++ new, [], ?_, ?_, ?_, fun _ => rfl⟩, rfl, rfl⟩
    · rw [arrived_append, ha]
      simp [arrived]
    · rw [List.append_nil, progress_append, ← hc]
      exact hb
    · rw [handedOver_append, progress_append, ← hc]
      refine reads_append hx ?_
      rw [show handedOver [.handedOver ([] ++ xs)] = xs by simp [handedOver]]
      exact hxs

/-- What has been received goes to the end of the buffer. -/
theorem Delivered.receive {s : State} {τ : List Event} {bytes rest : Bytes} {b : PoolRecvBuffer}
    (h : Delivered ps s τ) (hr : s.reader = .receiving) (hq : s.queue = bytes ++ rest)
    (hb : s.buffer.append bytes = some b) (hlen : bytes.length ≤ READ_BUFFER_SIZE) :
    Delivered ps { s with queue := rest, buffer := b } τ := by
  obtain ⟨seen, new, ha, hc, hx, -⟩ := h.cut
  unfold READ_BUFFER_SIZE at hlen
  have hfit : s.buffer.m_size + bytes.length ≤ 2 ^ 63 := by
    by_contra hlt
    rw [PoolRecvBuffer.append_overflow h.ok (by omega) (by omega)] at hb
    exact absurd hb (by simp)
  obtain ⟨b₁, hb₁, hok, hc₁⟩ := PoolRecvBuffer.append_spec h.ok hfit
  rw [hb] at hb₁
  obtain rfl : b = b₁ := Option.some.inj hb₁
  refine ⟨hok, seen, new ++ bytes, ?_, ?_, hx, fun hi => ?_⟩
  · rw [ha, hq]
    simp
  · rw [hc₁, hc, List.append_assoc]
  · rw [show ({ s with queue := rest, buffer := b } : State).reader = s.reader from rfl, hr] at hi
    exact absurd hi (by simp)

/-! ## 3. Every step keeps it -/

theorem sound_accepted : Sound ps accepted [] := by
  obtain ⟨hok, hc⟩ := PoolRecvBuffer.create_spec (show 4096 ≤ 2 ^ 63 by decide)
  refine ⟨fun h => absurd h (by simp [accepted]), fun _ _ => ?_, fun h => absurd h (by simp [accepted])⟩
  have hprog : progress ps [] = ⟨[], ps, []⟩ := by
    cases ps with
    | nil => rfl
    | cons p ps => rw [progress, if_neg (by rw [Packet.length_frame]; simp)]
  refine ⟨hok, [], [], rfl, ?_, ?_, fun _ => rfl⟩
  · rw [hprog]
    exact hc
  · rw [hprog]
    rfl

/-- Once disconnected, nothing is promised. -/
theorem sound_gone {s : State} {τ : List Event} (hd : s.disconnected = true)
    (hr : s.registered = false) : Sound ps s τ :=
  ⟨fun _ => hr, fun h => absurd (hd.symm.trans h) (by simp), fun h => absurd (hr.symm.trans h) (by simp)⟩

/-- Something that happens to the socket of a registered descriptor is an edge. -/
theorem awake_wake (s : State) : Awake (wake s) := by
  intro hr _ _
  have hreg : s.registered = true := hr
  simp [wake, hreg]

theorem sound_step {s s' : State} {τ es : List Event} {l : Label} (h : Sound ps s τ)
    (hs : step s l = some (s', es)) : Sound ps s' (τ ++ es) := by
  cases l with
  | arrive bytes =>
    simp only [step] at hs
    split at hs
    · simp only [Option.some.injEq, Prod.mk.injEq] at hs
      obtain ⟨rfl, rfl⟩ := hs
      refine ⟨h.out, fun hd hsent => ?_, awake_wake _⟩
      rw [arrived_append] at hsent
      have hdel := h.delivered hd ((List.prefix_append _ _).trans hsent)
      obtain ⟨seen, new, ha, hc, hx, hn⟩ := hdel.cut
      refine ⟨hdel.ok, seen, new, ?_, hc, ?_, hn⟩
      · rw [arrived_append, ha]
        simp [arrived, wake]
      · rw [handedOver_append, show handedOver [.arrived bytes] = [] from rfl, List.append_nil]
        exact hx
    · exact absurd hs (by simp)
  | close =>
    simp only [step] at hs
    split at hs
    · simp only [Option.some.injEq, Prod.mk.injEq] at hs
      obtain ⟨rfl, rfl⟩ := hs
      rw [List.append_nil]
      exact ⟨h.out, fun hd hsent => (h.delivered hd hsent).congr rfl rfl id, awake_wake _⟩
    · exact absurd hs (by simp)
  | epollAdd =>
    simp only [step] at hs
    split at hs
    · next hc =>
      simp only [Option.some.injEq, Prod.mk.injEq] at hs
      obtain ⟨rfl, rfl⟩ := hs
      rw [List.append_nil]
      refine ⟨fun hd => absurd (hc.2.symm.trans hd) (by simp),
        fun hd hsent => (h.delivered hd hsent).congr rfl rfl id, fun _ _ hr => hr⟩
    · exact absurd hs (by simp)
  | epollMod =>
    simp only [step, Option.some.injEq, Prod.mk.injEq] at hs
    obtain ⟨rfl, rfl⟩ := hs
    rw [List.append_nil]
    refine ⟨h.out, fun hd hsent => (h.delivered hd hsent).congr rfl rfl id, fun hr hpc hread => ?_⟩
    have hev : s.event = true := h.awake hr hpc hread
    simp [hev]
  | writable =>
    simp only [step, Option.some.injEq, Prod.mk.injEq] at hs
    obtain ⟨rfl, rfl⟩ := hs
    rw [List.append_nil]
    exact ⟨h.out, fun hd hsent => (h.delivered hd hsent).congr rfl rfl id, awake_wake _⟩
  | epollWait =>
    simp only [step] at hs
    split at hs
    · next hpc =>
      split at hs
      · simp only [Option.some.injEq, Prod.mk.injEq] at hs
        obtain ⟨rfl, rfl⟩ := hs
        rw [List.append_nil]
        refine ⟨h.out, fun hd hsent => (h.delivered hd hsent).congr rfl rfl fun _ => hpc, ?_⟩
        -- `epoll_wait` drops the descriptor only where there is nothing to read.
        intro _ hidle hread
        have hread' : readable s = true := hread
        simp [hread'] at hidle
      · exact absurd hs (by simp)
    · exact absurd hs (by simp)
  | recv r =>
    simp only [step] at hs
    split at hs
    · next hpc =>
      cases hr : recv s r with
      | none => rw [hr] at hs; exact absurd hs (by simp)
      | some s₁ =>
        rw [hr] at hs
        simp only [Option.map_some, Option.some.injEq, Prod.mk.injEq] at hs
        obtain ⟨rfl, rfl⟩ := hs
        rw [List.append_nil]
        obtain ⟨bytes, rest, b, -, -, -, hq, hb, hlen, rfl⟩ | ⟨-, -, hq, hcl, rfl⟩ | ⟨-, rfl⟩ := recv_cases hr
        · refine ⟨h.out, fun hd hsent => (h.delivered hd hsent).receive hpc hq hb hlen, fun _ hi _ => ?_⟩
          simp [hpc] at hi
        · refine ⟨h.out, fun hd hsent => (h.delivered hd hsent).congr rfl rfl (by simp), fun _ _ hread => ?_⟩
          -- `EAGAIN`: the socket is empty now.
          simp [readable, hq, hcl] at hread
        · exact ⟨h.out, fun hd hsent => (h.delivered hd hsent).congr rfl rfl (by simp),
            fun _ hi _ => absurd hi (by simp)⟩
    · exact absurd hs (by simp)
  | parse fuel =>
    simp only [step] at hs
    split at hs
    · next hpc =>
      obtain ⟨hq, hcl, hreg, hev, hdis⟩ := parse_keeps hs
      refine ⟨fun hd => ?_, fun hd hsent => ?_, fun hr _ hread => ?_⟩
      · rw [hreg]
        exact h.out (hdis ▸ hd)
      · rw [arrived_append] at hsent
        have hsent' := (List.prefix_append _ _).trans hsent
        exact ((h.delivered (hdis ▸ hd) hsent').parse hsent' hs).1
      · rw [hev]
        refine h.awake (hreg ▸ hr) (Or.inr hpc) ?_
        unfold readable at hread ⊢
        rw [← hq, ← hcl]
        exact hread
    · exact absurd hs (by simp)
  | disconnectSelf =>
    simp only [step] at hs
    split at hs
    · simp only [Option.some.injEq, Prod.mk.injEq] at hs
      obtain ⟨rfl, rfl⟩ := hs
      exact sound_gone rfl rfl
    · exact absurd hs (by simp)
  | disconnect =>
    simp only [step, Option.some.injEq, Prod.mk.injEq] at hs
    obtain ⟨rfl, rfl⟩ := hs
    exact sound_gone rfl rfl

theorem sound_run {σ : List Label} {s : State} {τ : List Event} (hrun : run step accepted σ = some (s, τ)) :
    Sound ps s τ := by
  exact run_inv (Sound ps) sound_step (τ := []) sound_accepted hrun

/-! ## 4. The reactor gets done -/

/-- How much the reactor thread may still do by itself. -/
def work (s : State) : Nat :=
  s.queue.length + (if s.event then 4 else 0) +
    match s.reader with
    | .idle => 0
    | .receiving => 3
    | .parsing => 2
    | .failing => 1

theorem work_lt {s s' : State} {l : Label} {es : List Event} (hl : Reading l)
    (hs : step s l = some (s', es)) : work s' < work s ∧ arrived es = [] := by
  cases l with
  | arrive bytes => exact hl.elim
  | close => exact hl.elim
  | epollAdd => exact hl.elim
  | epollMod => exact hl.elim
  | writable => exact hl.elim
  | disconnect => exact hl.elim
  | epollWait =>
    simp only [step] at hs
    split at hs
    · next hpc =>
      split at hs
      · next hev =>
        simp only [Option.some.injEq, Prod.mk.injEq] at hs
        obtain ⟨rfl, rfl⟩ := hs
        refine ⟨?_, rfl⟩
        unfold work
        cases hread : readable s with
        | true => simp [hpc, hev]
        | false => simp [hpc, hev]
      · exact absurd hs (by simp)
    · exact absurd hs (by simp)
  | recv r =>
    simp only [step] at hs
    split at hs
    · next hpc =>
      cases hr : recv s r with
      | none => rw [hr] at hs; exact absurd hs (by simp)
      | some s₁ =>
        rw [hr] at hs
        simp only [Option.map_some, Option.some.injEq, Prod.mk.injEq] at hs
        obtain ⟨rfl, rfl⟩ := hs
        refine ⟨?_, rfl⟩
        obtain ⟨bytes, rest, b, -, -, hne, hq, -, -, rfl⟩ | ⟨-, -, -, -, rfl⟩ | ⟨-, rfl⟩ := recv_cases hr
        · have hpos := List.length_pos_iff.mpr hne
          simp only [work, hq, hpc, List.length_append]
          omega
        · simp [work, hpc]
        · simp [work, hpc]
    · exact absurd hs (by simp)
  | parse fuel =>
    simp only [step] at hs
    split at hs
    · next hpc =>
      unfold parse at hs
      split at hs
      · exact absurd hs (by simp)
      · simp only [Option.some.injEq, Prod.mk.injEq] at hs
        obtain ⟨rfl, rfl⟩ := hs
        exact ⟨by simp [work, hpc], rfl⟩
      · simp only [Option.some.injEq, Prod.mk.injEq] at hs
        obtain ⟨rfl, rfl⟩ := hs
        exact ⟨by simp [work, hpc], rfl⟩
    · exact absurd hs (by simp)
  | disconnectSelf =>
    simp only [step] at hs
    split at hs
    · next hpc =>
      simp only [Option.some.injEq, Prod.mk.injEq] at hs
      obtain ⟨rfl, rfl⟩ := hs
      refine ⟨?_, rfl⟩
      cases hev : s.event with
      | true => simp [work, disconnected, hpc, hev, Nat.add_assoc]
      | false => simp [work, disconnected, hpc, hev]
    · exact absurd hs (by simp)

/-- Nothing arrives in the steps of the reactor. -/
theorem arrived_reading {σ : List Label} {s s' : State} {τ : List Event} (hl : ∀ l ∈ σ, Reading l)
    (hrun : run step s σ = some (s', τ)) : arrived τ = [] := by
  refine run_inv_of_meets (P := fun _ => Reading) (fun _ τ => arrived τ = []) ?_ (τ := []) rfl
    (meets_of_labels hl) hrun
  intro s τ l s' es hi hp hs
  rw [arrived_append, hi, (work_lt hp hs).2]
  rfl

/-- A registered connection with which the reactor can do nothing more is read to the end. -/
theorem read_of_stuck {s : State} {τ : List Event} (h : Sound ps s τ) (hsent : arrived τ <+: frames ps)
    (hlen : (arrived τ).length ≤ 2 ^ 63)
    (hdec : ∀ p ∈ (progress ps (arrived τ)).complete, DecodeEnds p.type p.body)
    (hstuck : ∀ l, Reading l → step s l = none) (hreg : s.registered = true) :
    s.queue = [] ∧ s.closed = false ∧ Reads (handedOver τ) (progress ps (arrived τ)).complete := by
  have hdis : s.disconnected = false := by
    cases hd : s.disconnected with
    | false => rfl
    | true => exact absurd (hreg.symm.trans (h.out hd)) (by simp)
  have hdel := h.delivered hdis hsent
  obtain ⟨seen, new, ha, hc, hx, hn⟩ := hdel.cut
  cases hpc : s.reader with
  | idle =>
    have hev : s.event = false := by
      have hw := hstuck .epollWait trivial
      simp only [step, hpc] at hw
      split at hw
      · exact absurd hw (by simp)
      · next hne => simpa using hne
    have hread : readable s = false := by
      cases hr : readable s with
      | false => rfl
      | true => exact absurd (hev.symm.trans (h.awake hreg (Or.inl hpc) hr)) (by simp)
    simp only [readable, Bool.or_eq_false_iff, Bool.not_eq_false', List.isEmpty_iff] at hread
    refine ⟨hread.1, hread.2, ?_⟩
    rw [hn hpc, hread.1, List.append_nil, List.append_nil] at ha
    rw [ha]
    exact hx
  | receiving =>
    cases hq : s.queue with
    | nil =>
      cases hcl : s.closed with
      | false =>
        have hw := hstuck (.recv .wouldBlock) (by simp [Reading])
        simp [step, hpc, recv, hdis, hq, hcl] at hw
      | true =>
        have hw := hstuck (.recv .closed) (by simp [Reading])
        simp [step, hpc, recv, hdis, hq, hcl] at hw
    | cons c cs =>
      -- A single byte can always be received: the buffer has room.
      have hroom : s.buffer.m_size + [c].length ≤ 2 ^ 63 := by
        have h₁ := congrArg List.length hc
        have h₂ := congrArg List.length ha
        have h₃ := length_progress ps seen
        rw [PoolRecvBuffer.length_content, List.length_append] at h₁
        rw [List.length_append, List.length_append, hq, List.length_cons] at h₂
        rw [List.length_singleton]
        omega
      obtain ⟨b, hb, -, -⟩ := PoolRecvBuffer.append_spec hdel.ok hroom
      have hw := hstuck (.recv (.data [c])) (by simp [Reading])
      simp [step, hpc, recv, hdis, hq, hb, READ_BUFFER_SIZE] at hw
  | parsing =>
    have hpre := Delivered.within hsent ha hc
    have hdec' : ∀ p ∈ (progress (progress ps seen).coming s.buffer.content).complete,
        DecodeEnds p.type p.body := by
      intro p hp
      refine hdec p ?_
      rw [ha, ← List.append_assoc, progress_append, progress_append, ← hc]
      exact List.mem_append_left _ (List.mem_append_right _ hp)
    obtain ⟨n, b, xs, hends, -⟩ := parseLoop_ends (by simp) [] hdel.ok hpre hdec'
    have hw := hstuck (.parse n) trivial
    simp [step, hpc, parse, hends n (Nat.le_refl n)] at hw
  | failing =>
    have hw := hstuck .disconnectSelf trivial
    simp [step, hpc] at hw

/-! ## 5. A connection nobody ends -/

/-- As long as the client sends packets, the reactor has no reason to disconnect. -/
def Open (ps : List Packet) (s : State) (τ : List Event) : Prop :=
  arrived τ <+: frames ps → s.closed = false ∧ s.disconnected = false ∧ s.reader ≠ .failing

theorem open_step {s s' : State} {τ es : List Event} {l : Label} (h : Sound ps s τ) (ho : Open ps s τ)
    (hl : Peaceful l) (hs : step s l = some (s', es)) :
    Open ps s' (τ ++ es) ∧
      (arrived (τ ++ es) <+: frames ps → s.registered = true → s'.registered = true) := by
  have hback : arrived (τ ++ es) <+: frames ps → arrived τ <+: frames ps := by
    intro hsent
    rw [arrived_append] at hsent
    exact (List.prefix_append _ _).trans hsent
  cases l with
  | close => exact hl.elim
  | disconnect => exact hl.elim
  | arrive bytes =>
    simp only [step] at hs
    split at hs
    · simp only [Option.some.injEq, Prod.mk.injEq] at hs
      obtain ⟨rfl, rfl⟩ := hs
      exact ⟨fun hsent => ho (hback hsent), fun _ hr => hr⟩
    · exact absurd hs (by simp)
  | epollAdd =>
    simp only [step] at hs
    split at hs
    · simp only [Option.some.injEq, Prod.mk.injEq] at hs
      obtain ⟨rfl, rfl⟩ := hs
      exact ⟨fun hsent => ho (hback hsent), fun _ _ => rfl⟩
    · exact absurd hs (by simp)
  | epollMod =>
    simp only [step, Option.some.injEq, Prod.mk.injEq] at hs
    obtain ⟨rfl, rfl⟩ := hs
    exact ⟨fun hsent => ho (hback hsent), fun _ hr => hr⟩
  | writable =>
    simp only [step, Option.some.injEq, Prod.mk.injEq] at hs
    obtain ⟨rfl, rfl⟩ := hs
    exact ⟨fun hsent => ho (hback hsent), fun _ hr => hr⟩
  | epollWait =>
    simp only [step] at hs
    split at hs
    · split at hs
      · simp only [Option.some.injEq, Prod.mk.injEq] at hs
        obtain ⟨rfl, rfl⟩ := hs
        refine ⟨fun hsent => ?_, fun _ hr => hr⟩
        obtain ⟨hc, hd, -⟩ := ho (hback hsent)
        refine ⟨hc, hd, ?_⟩
        dsimp only
        split <;> simp
      · exact absurd hs (by simp)
    · exact absurd hs (by simp)
  | recv r =>
    simp only [step] at hs
    split at hs
    · next hpc =>
      cases hr : recv s r with
      | none => rw [hr] at hs; exact absurd hs (by simp)
      | some s₁ =>
        rw [hr] at hs
        simp only [Option.map_some, Option.some.injEq, Prod.mk.injEq] at hs
        obtain ⟨rfl, rfl⟩ := hs
        obtain ⟨-, -, -, -, -, -, -, -, -, rfl⟩ | ⟨-, -, -, -, rfl⟩ | ⟨⟨-, hcl⟩ | rfl, rfl⟩ := recv_cases hr
        · exact ⟨fun hsent => ho (hback hsent), fun _ hr => hr⟩
        · refine ⟨fun hsent => ?_, fun _ hr => hr⟩
          obtain ⟨hc, hd, -⟩ := ho (hback hsent)
          exact ⟨hc, hd, by simp⟩
        · refine ⟨fun hsent => ?_, fun _ hr => hr⟩
          exact absurd (hcl.symm.trans (ho (hback hsent)).1) (by simp)
        · exact absurd rfl hl
    · exact absurd hs (by simp)
  | parse fuel =>
    simp only [step] at hs
    split at hs
    · obtain ⟨-, hcl, hreg, -, hdis⟩ := parse_keeps hs
      refine ⟨fun hsent => ?_, fun _ hr => hreg ▸ hr⟩
      obtain ⟨hc, hd, -⟩ := ho (hback hsent)
      have hidle := ((h.delivered hd (hback hsent)).parse (hback hsent) hs).2.1
      exact ⟨hcl ▸ hc, hdis ▸ hd, by rw [hidle]; simp⟩
    · exact absurd hs (by simp)
  | disconnectSelf =>
    simp only [step] at hs
    split at hs
    · next hpc =>
      simp only [Option.some.injEq, Prod.mk.injEq] at hs
      obtain ⟨rfl, rfl⟩ := hs
      exact ⟨fun hsent => absurd hpc (ho (hback hsent)).2.2, fun hsent => absurd hpc (ho (hback hsent)).2.2⟩
    · exact absurd hs (by simp)

/-- It stays registered from `addFd` on. -/
theorem registered_of_added {σ : List Label} {s : State} {τ : List Event} (hl : ∀ l ∈ σ, Peaceful l)
    (hadd : .epollAdd ∈ σ) (hrun : run step accepted σ = some (s, τ)) (hsent : arrived τ <+: frames ps) :
    s.registered = true := by
  obtain ⟨σ₁, σ₂, rfl⟩ := List.append_of_mem hadd
  obtain ⟨s₁, τ₁, τ', hrun₁, hrun', rfl⟩ := run_append hrun
  have hopen₁ : Sound ps s₁ τ₁ ∧ Open ps s₁ τ₁ := by
    refine run_inv_of_meets (P := fun _ => Peaceful) (fun s τ => Sound ps s τ ∧ Open ps s τ) ?_ (τ := [])
      ⟨sound_accepted, fun _ => ⟨rfl, rfl, by simp [accepted]⟩⟩
      (meets_of_labels fun l hm => hl l (List.mem_append_left _ hm)) hrun₁
    exact fun hi hp hs => ⟨sound_step hi.1 hs, (open_step hi.1 hi.2 hp hs).1⟩
  obtain ⟨s₂, es, τ₂, hs, hrun₂, rfl⟩ := run_cons hrun'
  have hreg₂ : s₂.registered = true := by
    simp only [step] at hs
    split at hs
    · simp only [Option.some.injEq, Prod.mk.injEq] at hs
      obtain ⟨rfl, rfl⟩ := hs
      rfl
    · exact absurd hs (by simp)
  have hrest := run_inv_of_meets (P := fun _ => Peaceful)
    (fun s τ => (Sound ps s τ ∧ Open ps s τ) ∧ (arrived τ <+: frames ps → s.registered = true))
    (fun {s τ l s' es} hi hp hs => ?_) (τ := τ₁ ++ es) ⟨⟨sound_step hopen₁.1 hs,
      (open_step hopen₁.1 hopen₁.2 (l := .epollAdd) trivial hs).1⟩, fun _ => hreg₂⟩
    (meets_of_labels fun l hm => hl l (List.mem_append_right _ (List.mem_cons_of_mem _ hm))) hrun₂
  · rw [List.append_assoc] at hrest
    exact hrest.2 hsent
  · obtain ⟨ho, hr⟩ := open_step hi.1.1 hi.1.2 hp hs
    refine ⟨⟨sound_step hi.1.1 hs, ho⟩, fun hsent => hr hsent (hi.2 ?_)⟩
    rw [arrived_append] at hsent
    exact (List.prefix_append _ _).trans hsent

/-! ## 6. The reactor reads what arrives -/

/-- **Nothing stays unread.** Whatever has happened so far, the reactor can take only a bounded
    number of steps before something new happens; when none is left, a connection that is
    still registered is read to the end and every complete packet has been handed over; and
    it is still registered if nobody has ended it. -/
theorem arrived_read {σ σ' : List Label} {s s' : State} {τ τ' : List Event}
    (hrun : run step accepted σ = some (s, τ)) (hsent : arrived τ <+: frames ps)
    (hlen : (arrived τ).length ≤ 2 ^ 63)
    (hdec : ∀ p ∈ (progress ps (arrived τ)).complete, DecodeEnds p.type p.body)
    (hreading : ∀ l ∈ σ', Reading l) (hrun' : run step s σ' = some (s', τ')) :
    σ'.length ≤ s.queue.length + 7 ∧
      ((∀ l, Reading l → step s' l = none) → s'.registered = true →
        s'.queue = [] ∧ s'.closed = false ∧
          Reads (handedOver (τ ++ τ')) (progress ps (arrived τ)).complete) ∧
      ((∀ l ∈ σ, Peaceful l) → .epollAdd ∈ σ → s'.registered = true) := by
  have hboth := run_trans hrun' hrun
  have hquiet : arrived (τ ++ τ') = arrived τ := by
    rw [arrived_append, arrived_reading hreading hrun', List.append_nil]
  refine ⟨?_, fun hstuck hreg => ?_, fun hl hadd => ?_⟩
  · have hle := (length_run_le Reading (fun _ => True) work (fun _ hp hs => ⟨trivial, (work_lt hp hs).1⟩)
      trivial hreading hrun').2
    have hwork : work s ≤ s.queue.length + 7 := by
      unfold work
      split <;> split <;> omega
    omega
  · rw [← hquiet] at hsent hlen hdec ⊢
    exact read_of_stuck (sound_run hboth) hsent hlen hdec hstuck hreg
  · have hsent' : arrived (τ ++ τ') <+: frames ps := hquiet ▸ hsent
    refine registered_of_added (fun l hm => ?_) (List.mem_append_left _ hadd) hboth hsent'
    rcases List.mem_append.mp hm with hm | hm
    · exact hl l hm
    · have h := hreading l hm
      cases l with
      | recv r => exact h
      | epollWait => trivial
      | parse fuel => trivial
      | disconnectSelf => trivial
      | arrive bytes => trivial
      | epollAdd => trivial
      | epollMod => trivial
      | writable => trivial
      | close => exact h.elim
      | disconnect => exact h.elim

/-- The first half of a heartbeat is there before `addFd`, the second comes when the reactor
    has just got its `EAGAIN`. -/
def halfRead : List Label :=
  [.arrive [0, 0, 0], .epollAdd, .epollWait, .recv (.data [0, 0, 0]), .recv .wouldBlock, .arrive [6, 0, 2]]

def readOn : List Label :=
  [.parse 1, .epollWait, .recv (.data [6, 0, 2]), .recv .wouldBlock, .parse 2]

theorem arrived_read_heartbeat :
    ∃ s τ s' τ', run step accepted halfRead = some (s, τ) ∧ run step s readOn = some (s', τ') ∧
      s'.registered = true ∧ s'.queue = [] ∧ Reads (handedOver (τ ++ τ')) [⟨2, [], by decide⟩] := by
  obtain ⟨⟨s, τ⟩, hrun⟩ := Option.isSome_iff_exists.mp
    (show (run step accepted halfRead).isSome = true by decide)
  have harr : (run step accepted halfRead).map (fun p => arrived p.2)
      = some (frames [⟨2, [], by decide⟩]) := by decide
  have hend : (run step accepted halfRead).bind (fun p => (run step p.1 readOn).map fun q =>
      (q.1.reader, q.1.event)) = some (.idle, false) := by decide
  rw [hrun] at harr hend
  obtain ⟨⟨s', τ'⟩, hrun', hq⟩ := Option.map_eq_some_iff.mp hend
  obtain ⟨hidle, hev⟩ := Prod.mk.inj hq
  have harr' : arrived τ = frames [⟨2, [], by decide⟩] := Option.some.inj harr
  have hall : (progress [⟨2, [], by decide⟩] (arrived τ)).complete = [⟨2, [], by decide⟩] := by
    rw [harr']
    rfl
  have hdec : ∀ p ∈ (progress [⟨2, [], by decide⟩] (arrived τ)).complete, DecodeEnds p.type p.body := by
    intro p hp
    rw [hall, List.mem_singleton] at hp
    subst hp
    exact ⟨0, rfl⟩
  have hlen : (arrived τ).length ≤ 2 ^ 63 := by
    rw [harr']
    decide
  have hsent : arrived τ <+: frames [⟨2, [], by decide⟩] := by rw [harr']
  obtain ⟨-, hread, hreg⟩ := arrived_read hrun hsent hlen hdec (show ∀ l ∈ readOn, Reading l by decide) hrun'
  have hstuck : ∀ l, Reading l → step s' l = none := by
    intro l hl
    have hidle' : s'.reader = .idle := hidle
    have hev' : s'.event = false := hev
    cases l with
    | epollWait => simp [step, hidle', hev']
    | recv r => simp [step, hidle']
    | parse fuel => simp [step, hidle']
    | disconnectSelf => simp [step, hidle']
    | arrive bytes => exact hl.elim
    | close => exact hl.elim
    | epollAdd => exact hl.elim
    | epollMod => exact hl.elim
    | writable => exact hl.elim
    | disconnect => exact hl.elim
  have hreg' := hreg (by decide) (by decide)
  obtain ⟨hq, -, hreads⟩ := hread hstuck hreg'
  exact ⟨s, τ, s', τ', hrun, hrun', hreg', hq, hall ▸ hreads⟩

end Readiness
end EpollChat
