import EpollChat.Server.Shards

/-!
# What the shards are good for, and what a broadcast sees

Key by key the shards are the two tables of `Server.Registry` (`shards_are_tables`): every sequence of
calls gets the same answers. That is what the rest of the development relies on when it speaks
of one table.

A broadcast is the exception, as it does not hold all the locks at once. By `scan_spec` it still
reaches every client that is there all the time, and no client twice, because the descriptor
of a context decides the shard and never changes (`Entered`). Then it sends in the order it has
found the clients in, and last the ACK (`broadcast_delivers`).
-/

namespace EpollChat

open Lib Machine

/-! ## 1. The shards and the tables -/

section

variable {hash : Bytes → UInt64}

theorem flatten_empty : ({} : ShardedRegistry hash).flatten = {} := by
  simp only [ShardedRegistry.flatten, Registry.mk.injEq, true_and]
  exact ⟨funext Sharded.lookup_empty, funext Sharded.lookup_empty⟩

/-- One call. -/
theorem flatten_call (r : ShardedRegistry hash) (c : RegistryCall) :
    Registry.call r.flatten c = (r.call c).map (Prod.map ShardedRegistry.flatten id) := by
  cases c with
  | addClientCtx c fd =>
    simp only [Registry.call, ShardedRegistry.call, Option.map_some, Prod.map_apply, id_eq,
      ShardedRegistry.flatten, ShardedRegistry.addClientCtx, Registry.addClientCtx,
      Sharded.lookup_insert]
  | removeClientCtx fd =>
    simp only [Registry.call, ShardedRegistry.call, Option.map_some, Prod.map_apply, id_eq,
      ShardedRegistry.flatten, ShardedRegistry.removeClientCtx, Registry.removeClientCtx,
      Sharded.lookup_erase]
  | setOnlineUser accountID c =>
    by_cases ha : accountID = []
    · simp only [Registry.call, ShardedRegistry.call, Option.map_some, Prod.map_apply, id_eq,
        ShardedRegistry.setOnlineUser, Registry.setOnlineUser, if_pos ha]
    · simp only [Registry.call, ShardedRegistry.call, Option.map_some, Prod.map_apply, id_eq,
        ShardedRegistry.setOnlineUser, Registry.setOnlineUser, if_neg ha, ShardedRegistry.flatten,
        Sharded.lookup_insert]
  | removeOnlineUser accountID =>
    by_cases ha : accountID = []
    · simp only [Registry.call, ShardedRegistry.call, Option.map_some, Prod.map_apply, id_eq,
        ShardedRegistry.removeOnlineUser, Registry.removeOnlineUser, if_pos ha]
    · simp only [Registry.call, ShardedRegistry.call, Option.map_some, Prod.map_apply, id_eq,
        ShardedRegistry.removeOnlineUser, Registry.removeOnlineUser, if_neg ha,
        ShardedRegistry.flatten, Sharded.lookup_erase]
  | makeCtx fd => rfl
  | destroyCtx c => rfl
  | getClientCtxByFd fd => rfl
  | getOnlineCtx accountID => rfl

/-- **The shards are the tables.** Whatever is called in whatever order, and however accounts hash,
    the shards answer as the tables without shards do, and hold the same. -/
theorem shards_are_tables (hash : Bytes → UInt64) (calls : List RegistryCall) :
    run Registry.call {} calls =
      (run (@ShardedRegistry.call hash) {} calls).map (Prod.map ShardedRegistry.flatten id) := by
  have hrun : run Registry.call (ShardedRegistry.flatten {}) (calls.map id) =
      (run (@ShardedRegistry.call hash) {} calls).map (Prod.map ShardedRegistry.flatten id) :=
    run_map flatten_call
  rwa [flatten_empty, List.map_id] at hrun

end

namespace Broadcast

variable {hash : Bytes → UInt64}

/-! ## 2. Steps -/

theorem readShard_cases {s s' : State hash} {t : Nat} {order : List Nat} {es : List Event}
    (h : readShard s t order = some (s', es)) :
    ∃ sender i shards targets, s.threads t = .snapshot sender (i :: shards) targets ∧
      order.Perm (s.registry.clientShards.values i) ∧ es = [] ∧
      s' = setThread s t (match shards with
        | [] => .send sender (targets ++ order)
        | _ :: _ => .snapshot sender shards (targets ++ order)) := by
  unfold readShard at h
  split at h
  · split at h
    · simp only [Option.some.injEq, Prod.mk.injEq] at h
      obtain ⟨rfl, rfl⟩ := h
      exact ⟨_, _, _, _, ‹_›, ‹_›, rfl, rfl⟩
    · exact absurd h (by simp)
  · exact absurd h (by simp)

theorem sendPacket_cases {s s' : State hash} {t : Nat} {es : List Event}
    (h : sendPacket s t = some (s', es)) :
    (∃ sender c targets, s.threads t = .send sender (c :: targets) ∧
        s' = setThread s t (.send sender targets) ∧ es = [.sent t c]) ∨
      ∃ sender, s.threads t = .send sender [] ∧ s' = setThread s t .idle ∧ es = [.acked t sender] := by
  unfold sendPacket at h
  split at h
  · simp only [Option.some.injEq, Prod.mk.injEq] at h
    obtain ⟨rfl, rfl⟩ := h
    exact Or.inl ⟨_, _, _, ‹_›, rfl, rfl⟩
  · simp only [Option.some.injEq, Prod.mk.injEq] at h
    obtain ⟨rfl, rfl⟩ := h
    exact Or.inr ⟨_, ‹_›, rfl, rfl⟩
  · exact absurd h (by simp)

/-- The thread that takes a step, if a thread does. -/
def Label.thread : Label → Option Nat
  | .broadcast t _ => some t
  | .readShard t _ => some t
  | .sendPacket t => some t
  | _ => none

/-- The other threads stay where they are, and the events are not theirs. -/
theorem step_frame {s s' : State hash} {l : Label} {es : List Event} {t : Nat}
    (h : step s l = some (s', es)) (ht : l.thread ≠ some t) :
    s'.threads t = s.threads t ∧ ∀ e ∈ es, e.thread ≠ t := by
  have hset : ∀ {u : Nat} {pc : Pc}, u ≠ t → (setThread s u pc).threads t = s.threads t :=
    fun hu => Function.update_of_ne (Ne.symm hu) _ _
  cases l with
  | broadcast u sender =>
    have hu : u ≠ t := fun hut => ht (congrArg some hut)
    rw [step] at h
    split at h
    · simp only [Option.some.injEq, Prod.mk.injEq] at h
      obtain ⟨rfl, rfl⟩ := h
      exact ⟨hset hu, List.forall_mem_nil _⟩
    · exact absurd h (by simp)
  | readShard u order =>
    have hu : u ≠ t := fun hut => ht (congrArg some hut)
    obtain ⟨sender, i, shards, targets, -, -, rfl, rfl⟩ := readShard_cases h
    exact ⟨hset hu, List.forall_mem_nil _⟩
  | sendPacket u =>
    have hu : u ≠ t := fun hut => ht (congrArg some hut)
    rcases sendPacket_cases h with ⟨sender, c, targets, -, rfl, rfl⟩ | ⟨sender, -, rfl, rfl⟩
    · exact ⟨hset hu, List.forall_mem_singleton.mpr hu⟩
    · exact ⟨hset hu, List.forall_mem_singleton.mpr hu⟩
  | accept fd | removeClientCtx fd | setOnlineUser a c | removeOnlineUser a =>
    simp only [step, Option.some.injEq, Prod.mk.injEq] at h
    obtain ⟨rfl, rfl⟩ := h
    exact ⟨rfl, List.forall_mem_nil _⟩

/-! ## 3. Descriptors decide shards -/

/-- A client is entered under its own descriptor. -/
structure Entered (s : State hash) : Prop where
  fd : ∀ fd c, s.registry.clientShards.lookup fd = some c → fdOf s c = some fd
  fresh : ∀ c, s.registry.nextCtx ≤ c → s.registry.contexts c = none

theorem entered_initial : Entered (initial hash) := by
  refine ⟨fun fd c h => ?_, fun _ _ => rfl⟩
  have hempty : (initial hash).registry.clientShards.lookup fd = none := Sharded.lookup_empty fd
  rw [hempty] at h
  exact absurd h (by simp)

/-- A new context is entered; the others keep their descriptors. -/
theorem Entered.accept {s : State hash} (h : Entered s) (fd : Nat) :
    let s' := { s with registry := (s.registry.makeCtx fd).addClientCtx s.registry.nextCtx fd }
    Entered s' ∧ ∀ c k, fdOf s c = some k → fdOf s' c = some k := by
  intro s'
  have hctxs : s'.registry.contexts =
      Function.update s.registry.contexts s.registry.nextCtx (some { fd := fd }) := rfl
  have hnew : fdOf s' s.registry.nextCtx = some fd := by
    rw [fdOf, hctxs, Function.update_self]
    rfl
  have hkeep : ∀ c k, fdOf s c = some k → fdOf s' c = some k := by
    intro c k hc
    have hne : c ≠ s.registry.nextCtx := by
      rintro rfl
      rw [fdOf, h.fresh _ (Nat.le_refl _)] at hc
      exact absurd hc (by simp)
    rw [fdOf, hctxs, Function.update_of_ne hne]
    exact hc
  refine ⟨⟨fun k c hc => ?_, fun c hc => ?_⟩, hkeep⟩
  · have hl : s'.registry.clientShards.lookup =
        Function.update s.registry.clientShards.lookup fd (some s.registry.nextCtx) :=
      Sharded.lookup_insert ..
    rw [hl] at hc
    by_cases hk : k = fd
    · subst hk
      rw [Function.update_self] at hc
      obtain rfl := Option.some.inj hc
      exact hnew
    · rw [Function.update_of_ne hk] at hc
      exact hkeep c k (h.fd k c hc)
  · have hc' : s.registry.nextCtx + 1 ≤ c := hc
    rw [hctxs, Function.update_of_ne (by omega)]
    exact h.fresh c (by omega)

theorem Entered.removeClientCtx {s : State hash} (h : Entered s) (fd : Nat) :
    Entered { s with registry := s.registry.removeClientCtx fd } := by
  refine ⟨fun k c hc => ?_, h.fresh⟩
  have hl : (s.registry.removeClientCtx fd).clientShards.lookup =
      Function.update s.registry.clientShards.lookup fd none := Sharded.lookup_erase ..
  rw [hl] at hc
  by_cases hk : k = fd
  · subst hk
    rw [Function.update_self] at hc
    exact absurd hc (by simp)
  · rw [Function.update_of_ne hk] at hc
    exact h.fd k c hc

/-- What leaves the clients and the contexts alone keeps it. -/
theorem Entered.congr {s s' : State hash} (h : Entered s)
    (hclients : s'.registry.clientShards = s.registry.clientShards)
    (hctxs : s'.registry.contexts = s.registry.contexts)
    (hnext : s'.registry.nextCtx = s.registry.nextCtx) :
    Entered s' ∧ ∀ c k, fdOf s c = some k → fdOf s' c = some k := by
  have hfd : ∀ c, fdOf s' c = fdOf s c := fun c => by rw [fdOf, fdOf, hctxs]
  refine ⟨⟨fun k c hc => ?_, fun c hc => ?_⟩, fun c k hc => (hfd c).trans hc⟩
  · rw [hclients] at hc
    exact (hfd c).trans (h.fd k c hc)
  · rw [hctxs]
    exact h.fresh c (by rw [← hnext]; exact hc)

theorem step_entered {s s' : State hash} {l : Label} {es : List Event} (hi : Entered s)
    (h : step s l = some (s', es)) :
    Entered s' ∧ ∀ c k, fdOf s c = some k → fdOf s' c = some k := by
  cases l with
  | accept fd =>
    simp only [step, Option.some.injEq, Prod.mk.injEq] at h
    obtain ⟨rfl, rfl⟩ := h
    exact hi.accept fd
  | removeClientCtx fd =>
    simp only [step, Option.some.injEq, Prod.mk.injEq] at h
    obtain ⟨rfl, rfl⟩ := h
    exact ⟨hi.removeClientCtx fd, fun _ _ hc => hc⟩
  | setOnlineUser accountID c =>
    simp only [step, Option.some.injEq, Prod.mk.injEq] at h
    obtain ⟨rfl, rfl⟩ := h
    exact hi.congr (by simp) (by simp) (by simp)
  | removeOnlineUser accountID =>
    simp only [step, Option.some.injEq, Prod.mk.injEq] at h
    obtain ⟨rfl, rfl⟩ := h
    exact hi.congr (by simp) (by simp) (by simp)
  | broadcast t sender =>
    rw [step] at h
    split at h
    · simp only [Option.some.injEq, Prod.mk.injEq] at h
      obtain ⟨rfl, rfl⟩ := h
      exact hi.congr rfl rfl rfl
    · exact absurd h (by simp)
  | readShard t order =>
    obtain ⟨sender, i, shards, targets, -, -, rfl, rfl⟩ := readShard_cases h
    exact hi.congr rfl rfl rfl
  | sendPacket t =>
    rcases sendPacket_cases h with ⟨sender, c, targets, -, rfl, rfl⟩ | ⟨sender, -, rfl, rfl⟩
    · exact hi.congr rfl rfl rfl
    · exact hi.congr rfl rfl rfl

/-! ## 4. The snapshot -/

/-- How far thread `t` has come with its snapshot for `sender`. -/
def pos (t sender : Nat) (s : State hash) : Option (List (Fin kShardCount) × List Nat) :=
  match s.threads t with
  | .snapshot sender' (i :: shards) targets =>
      if sender' = sender then some (i :: shards, targets) else none
  | .send sender' targets => if sender' = sender then some ([], targets) else none
  | _ => none

theorem pos_cons {t sender : Nat} {s : State hash} {i : Fin kShardCount}
    {shards : List (Fin kShardCount)} {targets : List Nat}
    (h : pos t sender s = some (i :: shards, targets)) :
    s.threads t = .snapshot sender (i :: shards) targets := by
  unfold pos at h
  split at h
  · rename_i heq
    split at h
    · rename_i hs
      cases h
      rw [heq, hs]
    · exact absurd h (by simp)
  · split at h
    · exact absurd h (by simp)
    · exact absurd h (by simp)
  · exact absurd h (by simp)

theorem pos_nil {t sender : Nat} {s : State hash} {targets : List Nat}
    (h : pos t sender s = some ([], targets)) : s.threads t = .send sender targets := by
  unfold pos at h
  split at h
  · split at h
    · exact absurd h (by simp)
    · exact absurd h (by simp)
  · rename_i heq
    split at h
    · rename_i hs
      cases h
      rw [heq, hs]
    · exact absurd h (by simp)
  · exact absurd h (by simp)

/-- While the snapshot goes on, the thread's own steps read a shard each. -/
theorem snapshot_step {t sender : Nat} {s s' : State hash} {l : Label} {es : List Event}
    {i : Fin kShardCount} {shards : List (Fin kShardCount)} {targets : List Nat}
    (hpos : pos t sender s = some (i :: shards, targets)) (h : step s l = some (s', es)) :
    (∀ e ∈ es, e.thread ≠ t) ∧ (pos t sender s' = some (i :: shards, targets) ∨
      ∃ order, order.Perm (s.registry.clientShards.values i) ∧
        pos t sender s' = some (shards, targets ++ order)) := by
  have ht := pos_cons hpos
  by_cases hl : l.thread = some t
  · cases l with
    | readShard u order =>
      obtain rfl : u = t := Option.some.inj hl
      obtain ⟨sender', i', shards', targets', hu, horder, rfl, rfl⟩ := readShard_cases h
      rw [ht] at hu
      cases hu
      refine ⟨List.forall_mem_nil _, Or.inr ⟨order, horder, ?_⟩⟩
      rw [pos, setThread]
      dsimp only
      rw [Function.update_self]
      cases shards with
      | nil => exact if_pos rfl
      | cons i' shards => exact if_pos rfl
    | broadcast u sender' =>
      obtain rfl : u = t := Option.some.inj hl
      simp only [step, ht] at h
      exact absurd h (by simp)
    | sendPacket u =>
      obtain rfl : u = t := Option.some.inj hl
      simp only [step, sendPacket, ht] at h
      exact absurd h (by simp)
    | accept fd | removeClientCtx fd | setOnlineUser a c | removeOnlineUser a =>
      exact absurd hl (by simp [Label.thread])
  · obtain ⟨hsame, hes⟩ := step_frame h hl
    refine ⟨hes, Or.inl ?_⟩
    rw [pos, hsame]
    exact hpos

/-! ## 5. The sending -/

/-- The events of a thread. -/
def eventsOf (t : Nat) (τ : List Event) : List Event := τ.filter fun e => e.thread = t

theorem eventsOf_append (t : Nat) (τ τ' : List Event) :
    eventsOf t (τ ++ τ') = eventsOf t τ ++ eventsOf t τ' := List.filter_append ..

theorem eventsOf_others {t : Nat} {τ : List Event} (h : ∀ e ∈ τ, e.thread ≠ t) : eventsOf t τ = [] :=
  List.filter_eq_nil_iff.mpr fun e he => by simpa using h e he

theorem eventsOf_own {t : Nat} {τ : List Event} (h : ∀ e ∈ τ, e.thread = t) : eventsOf t τ = τ :=
  List.filter_eq_self.mpr fun e he => by simpa using h e he

/-- An idle thread that begins no broadcast stays idle and silent. -/
theorem idle_run {t : Nat} : ∀ {ls : List Label} {s s' : State hash} {τ : List Event},
    s.threads t = .idle → (∀ sender, Label.broadcast t sender ∉ ls) → run step s ls = some (s', τ) →
      eventsOf t τ = [] := by
  intro ls
  induction ls with
  | nil =>
    intro s s' τ _ _ hr
    simp only [run, Option.some.injEq, Prod.mk.injEq] at hr
    obtain ⟨-, rfl⟩ := hr
    rfl
  | cons l ls ih =>
    intro s s' τ ht hno hr
    obtain ⟨s₁, es, τ', hs, hr', rfl⟩ := run_cons hr
    have hl : l.thread ≠ some t := by
      intro hl
      cases l with
      | broadcast u sender =>
        obtain rfl : u = t := Option.some.inj hl
        exact hno sender List.mem_cons_self
      | readShard u order =>
        obtain rfl : u = t := Option.some.inj hl
        simp only [step, readShard, ht] at hs
        exact absurd hs (by simp)
      | sendPacket u =>
        obtain rfl : u = t := Option.some.inj hl
        simp only [step, sendPacket, ht] at hs
        exact absurd hs (by simp)
      | accept fd | removeClientCtx fd | setOnlineUser a c | removeOnlineUser a =>
        exact absurd hl (by simp [Label.thread])
    obtain ⟨hsame, hes⟩ := step_frame hs hl
    rw [eventsOf_append, eventsOf_others hes, List.nil_append]
    exact ih (hsame.trans ht) (fun sender h => hno sender (List.mem_cons_of_mem _ h)) hr'

/-- What a thread that has its targets sends until it is idle. -/
theorem send_run {t sender : Nat} : ∀ {ls : List Label} {s s' : State hash} {τ : List Event}
    {targets : List Nat}, s.threads t = .send sender targets →
      (∀ sender', Label.broadcast t sender' ∉ ls) → run step s ls = some (s', τ) →
      s'.threads t = .idle → eventsOf t τ = targets.map (Event.sent t) ++ [.acked t sender] := by
  intro ls
  induction ls with
  | nil =>
    intro s s' τ targets ht _ hr hdone
    simp only [run, Option.some.injEq, Prod.mk.injEq] at hr
    obtain ⟨rfl, -⟩ := hr
    rw [ht] at hdone
    exact absurd hdone (by simp)
  | cons l ls ih =>
    intro s s' τ targets ht hno hr hdone
    obtain ⟨s₁, es, τ', hs, hr', rfl⟩ := run_cons hr
    have hno' : ∀ sender', Label.broadcast t sender' ∉ ls :=
      fun sender' h => hno sender' (List.mem_cons_of_mem _ h)
    rw [eventsOf_append]
    by_cases hl : l.thread = some t
    · cases l with
      | sendPacket u =>
        obtain rfl : u = t := Option.some.inj hl
        rcases sendPacket_cases hs with ⟨sender', c, targets', hu, rfl, rfl⟩ | ⟨sender', hu, rfl, rfl⟩
        · rw [ht] at hu
          cases hu
          rw [ih (Function.update_self ..) hno' hr' hdone, eventsOf_own (t := u)
            (List.forall_mem_singleton.mpr rfl)]
          rfl
        · rw [ht] at hu
          cases hu
          rw [idle_run (Function.update_self ..) hno' hr', eventsOf_own (t := u)
            (List.forall_mem_singleton.mpr rfl)]
          rfl
      | broadcast u sender' =>
        obtain rfl : u = t := Option.some.inj hl
        exact absurd List.mem_cons_self (hno sender')
      | readShard u order =>
        obtain rfl : u = t := Option.some.inj hl
        simp only [step, readShard, ht] at hs
        exact absurd hs (by simp)
      | accept fd | removeClientCtx fd | setOnlineUser a c | removeOnlineUser a =>
        exact absurd hl (by simp [Label.thread])
    · obtain ⟨hsame, hes⟩ := step_frame hs hl
      rw [eventsOf_others hes, List.nil_append]
      exact ih (hsame.trans ht) hno' hr' hdone

/-! ## 6. A broadcast -/

/-- **What a broadcast does.** While clients come and go and other broadcasts run, it sends to some
    clients one after another, to none of them twice, and then the ACK. Every client that was
    registered as long as the snapshot took is among them, and every one of them was registered
    at some time during the snapshot. -/
theorem broadcast_delivers {ls₀ ls : List Label} {s₀ s : State hash} {τ₀ τ : List Event}
    {t sender : Nat} (h₀ : run step (initial hash) ls₀ = some (s₀, τ₀))
    (h : run step s₀ (.broadcast t sender :: ls) = some (s, τ))
    (honce : ∀ sender', Label.broadcast t sender' ∉ ls) (hdone : s.threads t = .idle) :
    ∃ (targets : List Nat) (ls₁ ls₂ : List Label), ls = ls₁ ++ ls₂ ∧
      eventsOf t τ = targets.map (Event.sent t) ++ [.acked t sender] ∧ targets.Nodup ∧
      (∀ fd c, Always step (fun s => s.registry.getClientCtxByFd fd = some c) s₀
        (.broadcast t sender :: ls₁) → c ∈ targets) ∧
      ∀ c ∈ targets, ∃ fd, ¬ Always step (fun s => s.registry.getClientCtxByFd fd ≠ some c) s₀
        (.broadcast t sender :: ls₁) := by
  have hi₀ : Entered s₀ :=
    run_inv_state Entered (fun hi hs => (step_entered hi hs).1) entered_initial h₀
  obtain ⟨s₁, es, τ', hs, hr, rfl⟩ := run_cons h
  have hi₁ : Entered s₁ := (step_entered hi₀ hs).1
  have hbegun : pos t sender s₁ = some (List.finRange kShardCount, []) ∧ es = [] := by
    simp only [step] at hs
    split at hs
    · simp only [Option.some.injEq, Prod.mk.injEq] at hs
      obtain ⟨rfl, rfl⟩ := hs
      rw [pos, setThread]
      dsimp only
      rw [Function.update_self]
      exact ⟨if_pos rfl, rfl⟩
    · exact absurd hs (by simp)
  obtain ⟨hpos, rfl⟩ := hbegun
  have hseen : Sharded.Seen clientShardIndex (fdOf s₁) (List.finRange kShardCount) [] :=
    ⟨List.nodup_finRange _, List.nodup_nil, fun _ hv => absurd hv List.not_mem_nil⟩
  have hend : ∀ i shards seen, pos t sender s ≠ some (i :: shards, seen) := by
    intro i shards seen hpos'
    rw [pos_cons hpos'] at hdone
    exact absurd hdone (by simp)
  obtain ⟨ls₁, ls₂, s₂, τ₁, τ₂, targets, rfl, rfl, hr₂, -, hpos₂, hquiet, hscan⟩ :=
    Sharded.scan_spec (fun s => s.registry.clientShards) Entered (fun hi => hi.fd)
      step_entered snapshot_step hi₁ hseen hpos hr hend
  have honce₂ : ∀ sender', Label.broadcast t sender' ∉ ls₂ :=
    fun sender' h => honce sender' (List.mem_append_right _ h)
  refine ⟨targets, ls₁, ls₂, rfl, ?_, hscan.nodup, fun fd c ha => ?_, fun c hc => ?_⟩
  · rw [List.nil_append, eventsOf_append, eventsOf_others hquiet, List.nil_append]
    exact send_run (pos_nil hpos₂) honce₂ hr₂ hdone
  · exact hscan.complete fd c (List.mem_finRange _) (ha.2 s₁ [] hs)
  · rcases hscan.sound c hc with hmem | ⟨fd, hfd⟩
    · exact absurd hmem List.not_mem_nil
    · exact ⟨fd, fun ha => hfd (ha.2 s₁ [] hs)⟩

/-- Two clients; the second goes while the first one's broadcast is on its way to both. -/
def toBoth : List Label :=
  (List.range 128).map (fun i => .readShard 0 (if i = 7 then [0] else if i = 8 then [1] else [])) ++
    [.sendPacket 0, .removeClientCtx 8, .sendPacket 0, .sendPacket 0]

theorem broadcast_delivers_toBoth : ∃ (s₀ s : State fun _ => 0) (τ : List Event),
    run step s₀ (.broadcast 0 0 :: toBoth) = some (s, τ) ∧
      ∃ targets : List Nat, eventsOf 0 τ = targets.map (Event.sent 0) ++ [.acked 0 0] ∧
        targets.Nodup := by
  have hrun : ∃ p ∈ run step (initial fun _ => 0)
      ([.accept 7, .accept 8] ++ .broadcast 0 0 :: toBoth), p.1.threads 0 = .idle := by
    set_option maxRecDepth 4000 in decide
  obtain ⟨⟨s, τ⟩, hr, hdone⟩ := hrun
  obtain ⟨s₀, τ₀, τ₁, h₀, h, -⟩ := run_append hr
  have honce : ∀ sender', Label.broadcast 0 sender' ∉ toBoth := by
    intro sender' hmem
    simp [toBoth] at hmem
  obtain ⟨targets, -, -, -, hevents, hnodup, -⟩ := broadcast_delivers h₀ h honce hdone
  exact ⟨s₀, s, τ₁, h, targets, hevents, hnodup⟩

end Broadcast
end EpollChat
