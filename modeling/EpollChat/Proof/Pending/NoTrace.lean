import EpollChat.Proof.Pending.Gone

/-!
# Does an acknowledgement leave a trace?

`dispatchDueMessagesForUser` reads a payload, sends it, and then writes the attempt counter
and the due time of its id without looking at the payload again. An acknowledgement in
between empties the three tables, and the two writes bring the id back into two of them.

The harm is done by the `ZADD`, after which the call no longer looks after the id. `Tidy` is
what is left of the claim in every run in which no `ZADD` comes too late: an id without a
payload is in the other tables only while a dispatch is about to reschedule it.
-/

namespace EpollChat
namespace Pending

open Lib Machine

/-! ## 1. The window, and the write that comes too late -/

/-- In the schedule or in the attempts. -/
def Present (r : Redis) (u i : Bytes) : Prop :=
  i ∈ (r.tables u).schedule.members ∨ ((r.tables u).attempts i).isSome = true

/-- The call is between the `HGET` of `i` and its `ZADD`. -/
def Phase.Holds (p : Phase) (i : Bytes) : Prop :=
  (∃ msg ∈ p.msgs, extractJsonValue msg (ascii "msg_id") = i) ∨ p.busy = some i

def InWindow (s : State) (u i : Bytes) : Prop :=
  ∃ t d users, s.threads t = .dispatch d users ∧ cStr d.user = u ∧ d.phase.Holds i

/-- Every id of the schedule or the attempts has a payload, or is in the hands of a dispatch. -/
def NoTrace (s : State) : Prop :=
  ∀ u i, Present s.redis u i → ((s.redis.tables u).payload i).isSome = true ∨ InWindow s u i

/-- The user and the id a thread is about to `ZADD`. -/
def Pc.rescheduling : Pc → Option (Bytes × Bytes)
  | .dispatch ⟨_, user, _, .reschedule i _ _⟩ _ => some (cStr user, i)
  | _ => none

/-- An id is rescheduled only while its payload is there. -/
def RescheduledInTime (s : State) : Label → Prop
  | .move tid _ _ =>
      ∀ e ∈ (s.threads tid).rescheduling, ((s.redis.tables e.1).payload e.2).isSome = true
  | _ => True

instance (s : State) : DecidablePred (RescheduledInTime s)
  | .move _ _ _ => inferInstanceAs (Decidable (∀ _ ∈ _, _))
  | .privateSend .. | .loginDispatch .. | .retryScan .. | .ackPending .. => isTrue trivial

theorem Pc.rescheduling_dispatch {pc : Pc} {u i : Bytes} (h : pc.rescheduling = some (u, i)) :
    ∃ d users due msgs, pc = .dispatch d users ∧ cStr d.user = u ∧ d.phase = .reschedule i due msgs := by
  unfold Pc.rescheduling at h
  split at h
  · simp only [Option.some.injEq, Prod.mk.injEq] at h
    obtain ⟨rfl, rfl⟩ := h
    exact ⟨_, _, _, _, rfl, rfl, rfl⟩
  · exact absurd h (by simp)

theorem Pc.rescheduling_eq {d : Dispatch} {users : List Bytes} {i : Bytes} {due : Int}
    {msgs : List Bytes} (h : d.phase = .reschedule i due msgs) :
    (Pc.dispatch d users).rescheduling = some (cStr d.user, i) := by
  obtain ⟨call, user, includeAll, phase⟩ := d
  dsimp only at h
  subst h
  rfl

theorem rescheduling_of_isDispatch {pc : Pc} (h : pc.isDispatch = false) :
    pc.rescheduling = none := by
  cases pc with
  | dispatch d users => exact absurd h (by simp [Pc.isDispatch])
  | _ => rfl

/-! ## 2. What the commands do to `Present` -/

theorem Present.zremSchedule {r : Redis} {u i v j : Bytes} (h : Present (r.zremSchedule u i) v j) :
    Present r v j := by
  unfold Present at h
  rw [Redis.zremSchedule, Redis.modify_apply] at h
  split at h
  · exact h.imp_left fun h => (SortedSet.mem_members_zrem.mp h).1
  · exact h

theorem Present.hsetAttempt {r : Redis} {u i v j : Bytes} {n : Int}
    (h : Present (r.hsetAttempt u i n) v j) : Present r v j ∨ (v = u ∧ j = i) := by
  by_cases hj : v = u ∧ j = i
  · exact Or.inr hj
  · left
    unfold Present at h
    rw [Redis.hsetAttempt, Redis.modify_apply] at h
    split at h
    · next hv =>
      have hne : j ≠ i := fun hji => hj ⟨hv, hji⟩
      dsimp only at h
      rw [Function.update_of_ne hne] at h
      exact h
    · exact h

theorem Present.zaddSchedule {r : Redis} {u i v j : Bytes} {due : Int}
    (h : Present (r.zaddSchedule u i due) v j) : Present r v j ∨ (v = u ∧ j = i) := by
  unfold Present at h
  rw [Redis.zaddSchedule, Redis.modify_apply] at h
  split at h
  · next hv =>
    rcases h with h | h
    · rcases SortedSet.mem_members_zadd.mp h with h | h
      · exact Or.inr ⟨hv, h⟩
      · exact Or.inl (Or.inl h)
    · exact Or.inl (Or.inr h)
  · exact Or.inl h

theorem Present.storeScript {r : Redis} {u i json v j : Bytes} {due : Int}
    (h : Present (r.storeScript u i json due) v j) : Present r v j ∨ (v = u ∧ j = i) := by
  by_cases hj : v = u ∧ j = i
  · exact Or.inr hj
  · left
    unfold Present at h
    rw [Redis.storeScript_tables] at h
    split at h
    · next hv =>
      have hne : j ≠ i := fun hji => hj ⟨hv, hji⟩
      dsimp only at h
      rw [Function.update_of_ne hne] at h
      exact h.imp_left fun h => (SortedSet.mem_members_zadd.mp h).resolve_left hne
    · exact h

theorem storeScript_payload_isSome {r : Redis} {u i json v j : Bytes} {due : Int}
    (h : ((r.tables v).payload j).isSome = true) :
    (((r.storeScript u i json due).tables v).payload j).isSome = true := by
  rw [Redis.storeScript_tables]
  split
  · by_cases hj : j = i
    · subst hj
      simp
    · simpa [Function.update_of_ne hj] using h
  · exact h

theorem Present.ackScript {r : Redis} {u v j : Bytes} {ids : List Bytes}
    (h : Present (r.ackScript u ids) v j) : Present r v j ∧
      ((r.ackScript u ids).tables v).payload j = (r.tables v).payload j := by
  by_cases hv : v = u
  · subst hv
    rcases h with h | h
    · obtain ⟨hs, hnot⟩ := (Redis.ackScript_schedule ..).mp h
      exact ⟨Or.inl hs, by rw [Redis.ackScript_payload, if_neg hnot]⟩
    · rw [Redis.ackScript_attempts] at h
      split at h
      · exact absurd h (by simp)
      · next hnot => exact ⟨Or.inr h, by rw [Redis.ackScript_payload, if_neg hnot]⟩
  · have hsame : (r.ackScript u ids).tables v = r.tables v := Redis.modify_other _ _ hv
    unfold Present at h
    rw [hsame] at h
    exact ⟨h, by rw [hsame]⟩

/-! ## 3. Runs in which no `ZADD` comes too late -/

/-- An id without a payload is about to be rescheduled, if it is in the tables at all. -/
def Tidy (s : State) : Prop :=
  ∀ u i, Present s.redis u i → ((s.redis.tables u).payload i).isSome = true ∨
    ∃ t, (s.threads t).rescheduling = some (u, i)

/-- A thread that was not about to reschedule anything moves on. -/
theorem rescheduling_setThread {s : State} {tid : Nat} {pc : Pc} {u i : Bytes}
    (hth : (s.threads tid).rescheduling = none)
    (h : ∃ t, (s.threads t).rescheduling = some (u, i)) :
    ∃ t, ((setThread s tid pc).threads t).rescheduling = some (u, i) := by
  obtain ⟨t, ht⟩ := h
  refine ⟨t, ?_⟩
  have hne : t ≠ tid := by
    rintro rfl
    rw [hth] at ht
    exact absurd ht (by simp)
  rw [setThread_other hne]
  exact ht

theorem Tidy.setThread {s : State} (hi : Tidy s) {tid : Nat} (pc : Pc)
    (hth : (s.threads tid).isDispatch = false) : Tidy (setThread s tid pc) := by
  intro u i hp
  exact (hi u i hp).imp_right (rescheduling_setThread (rescheduling_of_isDispatch hth))

theorem Tidy.dispatch {s : State} {tid : Nat} {d : Dispatch} {users : List Bytes} {now : Int}
    {p : Option Phase} {r : Redis} {es : List Event} (hi : Tidy s)
    (hth : s.threads tid = .dispatch d users) (hd : dispatchStep s.redis d now = (p, r, es))
    (hin : ∀ e ∈ (s.threads tid).rescheduling, ((s.redis.tables e.1).payload e.2).isSome = true) :
    Tidy (Pending.setThread { s with redis := r } tid (afterDispatch d users p)) := by
  have hpay := dispatchStep_payload hd
  -- what was in order before the step is in order after it
  have hold : ∀ {u i}, Present s.redis u i →
      ((r.tables u).payload i).isSome = true ∨ ∃ t, ((Pending.setThread { s with redis := r } tid
        (afterDispatch d users p)).threads t).rescheduling = some (u, i) := by
    intro u i hp
    rcases hi u i hp with h | ⟨t, ht⟩
    · left
      rw [hpay]
      exact h
    · by_cases htt : t = tid
      · subst htt
        left
        rw [hpay]
        exact hin (u, i) ht
      · right
        refine ⟨t, ?_⟩
        rw [setThread_other htt]
        exact ht
  intro u i hp
  change Present r u i at hp
  rcases dispatchStep_tables hd with rfl | ⟨j, rfl⟩ | ⟨j, n, due, msgs, -, rfl, rfl⟩
    | ⟨j, due, msgs, hph, rfl⟩
  · exact hold hp
  · exact hold hp.zremSchedule
  · rcases hp.hsetAttempt with hp | ⟨rfl, rfl⟩
    · exact hold hp
    · right
      refine ⟨tid, ?_⟩
      rw [setThread_same]
      rfl
  · rcases hp.zaddSchedule with hp | ⟨rfl, rfl⟩
    · exact hold hp
    · left
      rw [hth, Pc.rescheduling_eq hph] at hin
      show (((s.redis.zaddSchedule (cStr d.user) i due).tables (cStr d.user)).payload i).isSome = true
      rw [hpay]
      exact hin _ rfl

/-- **One step in time keeps the tables tidy.** -/
theorem Tidy.step {s s' : State} {l : Label} {es : List Event} (hi : Tidy s)
    (hin : RescheduledInTime s l) (h : step s l = some (s', es)) : Tidy s' := by
  cases step_effect h with
  | stay => exact hi
  | plain hth hpc hes => exact hi.setThread _ hth
  | start hth => exact hi.setThread (s := { s with nextCall := s.nextCall + 1 }) _ hth
  | dispatch hth hd => exact hi.dispatch hth hd hin
  | @store _ tid target json id due hth hfresh =>
    intro u i hp
    have hthread : (s.threads tid).rescheduling = none :=
      rescheduling_of_isDispatch (by rw [hth]; rfl)
    rcases Present.storeScript hp with hp | ⟨rfl, rfl⟩
    · exact (hi u i hp).imp storeScript_payload_isSome (rescheduling_setThread hthread)
    · left
      show (((s.redis.storeScript u _ json due).tables u).payload _).isSome = true
      rw [Redis.storeScript_tables, if_pos rfl]
      simp
  | ack =>
    intro u i hp
    obtain ⟨hp', hpay⟩ := Present.ackScript hp
    refine (hi u i hp').imp_left fun h => ?_
    rw [hpay]
    exact h

/-! ## 4. Dispatches that start after an acknowledgement -/

/-- No call but the ones in `running` holds `i`. -/
def Late (running : Nat → Prop) (u i : Bytes) (s : State) : Prop :=
  ∀ ⦃t d users⦄, s.threads t = .dispatch d users → cStr d.user = u → d.phase.Holds i →
    running d.call

/-- An id without a payload is fetched by nobody. -/
theorem Late.step {running : Nat → Prop} {u i : Bytes} {s s' : State} {τ es : List Event} {l : Label}
    (hb : Base s τ) (hl : Late running u i s) (hpay : (s.redis.tables u).payload i = none)
    (h : Effect s l s' es) : Late running u i s' := by
  intro t d users ht hu hh
  rcases h.threads ht with ⟨ht, -⟩ | ⟨hph, -, -⟩ | ⟨d₀, now, ht₀, hd, hcall, huser⟩
  · exact hl ht hu hh
  · rw [hph] at hh
    rcases hh with ⟨msg, hm, -⟩ | hbusy
    · exact absurd hm (by simp [Phase.msgs])
    · exact absurd hbusy (by simp [Phase.busy])
  · rw [huser] at hu
    rw [hcall]
    refine hl ht₀ hu ?_
    rcases hh with ⟨msg, hm, hid⟩ | hbusy
    · rcases dispatchStep_msgs hd msg hm with hm | ⟨j, json, hj, hp, rfl, -⟩
      · exact Or.inl ⟨msg, hm, hid⟩
      · -- the message just read is `i`'s own, so `i` has a payload
        obtain ⟨id, rfl, hst⟩ := hb.tables.payload hp
        rw [(hb.message hst).2.extract_cStr] at hid
        rw [hu, hid, hpay] at hp
        exact absurd hp (by simp)
    · rcases dispatchStep_busy hd hbusy with hbusy | ⟨msg, hm, hid⟩
      · exact Or.inr hbusy
      · exact Or.inl ⟨msg, hm, hid⟩

/-- After an `ackPendingMessage`, a message not stored since has no payload. -/
theorem payload_acked {s s₁ s₂ : State} {τ τ₁ es : List Event} {tid : Nat} {u : Bytes}
    {ids : List UInt64} {id : UInt64} (hb : Base s (τ₁ ++ es ++ τ)) (hg : Gone s (τ₁ ++ es ++ τ))
    (hack : Pending.step s₁ (.ackPending tid u ids) = some (s₂, es)) (hid : id ∈ ids)
    (hst : ∀ json, .stored u id json ∈ τ₁ ++ es ++ τ → .stored u id json ∈ τ₁) :
    (s.redis.tables u).payload (idStr id) = none := by
  rw [Option.eq_none_iff_forall_ne_some]
  intro json hp
  obtain ⟨id', heq, hmem⟩ := hb.tables.payload hp
  obtain rfl := idStr_inj heq
  obtain ⟨hne, -⟩ := hb.message hmem
  -- it has been stored, so the acknowledgement was not an empty one
  have hes : es = [.acked u ids] := by
    have hmem' : idStr id ∈ ackedIds ids := mem_ackedIds.mpr ⟨hid, hne⟩
    simp only [Pending.step] at hack
    split at hack
    · rw [if_neg] at hack
      · simp only [Option.some.injEq, Prod.mk.injEq] at hack
        exact hack.2.symm
      · rintro (hu | hnil)
        · exact hb.user hmem hu
        · rw [hnil] at hmem'
          exact absurd hmem' (by simp)
    · exact absurd hack (by simp)
  have hsub : [Event.stored u id json, Event.acked u ids].Sublist (τ₁ ++ es ++ τ) := by
    rw [hes]
    refine List.Sublist.trans ?_ (List.sublist_append_left _ _)
    exact (List.singleton_sublist.mpr (hst json hmem)).append (List.Sublist.refl _)
  rw [hg ⟨json, ids, hsub, hid⟩] at hp
  exact absurd hp (by simp)

/-- The calls running in a state. -/
def Running (s : State) (call : Nat) : Prop :=
  ∃ t d users, s.threads t = .dispatch d users ∧ d.call = call

/-- **Whoever holds an acknowledged message was running when it was acknowledged.** -/
theorem Late.run_from {s s₁ s₂ : State} {τ₁ τ₂ es : List Event} {tid : Nat} {u : Bytes}
    {ids : List UInt64} {id : UInt64} {ls : List Label} (hb : Base s₂ (τ₁ ++ es))
    (hg : Gone s₂ (τ₁ ++ es)) (hack : Pending.step s₁ (.ackPending tid u ids) = some (s₂, es))
    (hid : id ∈ ids) (hr : run Pending.step s₂ ls = some (s, τ₂))
    (hst : ∀ json, .stored u id json ∈ τ₁ ++ es ++ τ₂ → .stored u id json ∈ τ₁) :
    Late (Running s₁) u (idStr id) s := by
  have hthreads : s₂.threads = s₁.threads := by
    simp only [Pending.step] at hack
    split at hack
    · split at hack
      · simp only [Option.some.injEq, Prod.mk.injEq] at hack
        rw [hack.1]
      · simp only [Option.some.injEq, Prod.mk.injEq] at hack
        rw [← hack.1]
    · exact absurd hack (by simp)
  have hstart : Late (Running s₁) u (idStr id) s₂ := by
    intro t d users ht _ _
    rw [hthreads] at ht
    exact ⟨t, d, users, ht, rfl⟩
  -- the invariant, as long as nothing has been stored under the id since
  have h := run_inv (fun s τ => ∃ τ', τ = τ₁ ++ es ++ τ' ∧ Base s τ ∧ Gone s τ ∧
    ((∀ json, .stored u id json ∈ τ → .stored u id json ∈ τ₁) → Late (Running s₁) u (idStr id) s)) ?_
    ⟨[], by rw [List.append_nil], hb, hg, fun _ => hstart⟩ hr
  · obtain ⟨τ', -, -, -, hlate⟩ := h
    exact hlate hst
  · rintro s τ l s' es' ⟨τ', rfl, hb, hg, hlate⟩ hs
    refine ⟨τ' ++ es', by rw [List.append_assoc], hb.step hs, Gone.step hb hg (step_effect hs), ?_⟩
    intro hst'
    have hst'' : ∀ json, .stored u id json ∈ τ₁ ++ es ++ τ' → .stored u id json ∈ τ₁ :=
      fun json h => hst' json (List.mem_append_left _ h)
    exact Late.step hb (hlate hst'') (payload_acked hb hg hack hid hst'') (step_effect hs)

/-! ## 5. What is left of the claim -/

theorem Tidy.start : Tidy {} := by
  intro u i hp
  rcases hp with hp | hp
  · exact absurd hp (by simp [SortedSet.members])
  · exact absurd hp (by simp)

theorem Tidy.noTrace {s : State} (hi : Tidy s) : NoTrace s := by
  intro u i hp
  refine (hi u i hp).imp_right ?_
  rintro ⟨t, ht⟩
  obtain ⟨d, users, due, msgs, hth, hu, hph⟩ := Pc.rescheduling_dispatch ht
  exact ⟨t, d, users, hth, hu, Or.inr (by rw [hph]; rfl)⟩

theorem Tidy.run {ls : List Label} {s : State} {τ : List Event}
    (hm : Meets Pending.step RescheduledInTime {} ls) (hr : run Pending.step {} ls = some (s, τ)) :
    Tidy s := by
  exact run_inv_of_meets (fun s _ => Tidy s) (fun hi hin hs => hi.step hin hs) (τ := []) Tidy.start
    hm hr

/-- **In every run in which no id is rescheduled after its payload has gone, an
    acknowledgement leaves no trace**: in every state reached, an id in the schedule or the
    attempts has a payload or is in the hands of a dispatch; and once an
    `ackPendingMessage(u, ids)` has run and the dispatches that were running then have
    finished, an id of `ids` that was not stored for `u` afterwards is in none of the three
    tables. -/
theorem ack_leaves_no_trace {ls : List Label} {s : State} {τ : List Event}
    (hm : Meets step RescheduledInTime {} ls) (hr : run step {} ls = some (s, τ)) :
    NoTrace s ∧
      ∀ {ls₁ ls₂ : List Label} {tid : Nat} {u : Bytes} {ids : List UInt64} {id : UInt64}
        {s₁ : State} {τ₁ : List Event}, ls = ls₁ ++ .ackPending tid u ids :: ls₂ →
        run step {} ls₁ = some (s₁, τ₁) → id ∈ ids →
        (∀ json, .stored u id json ∈ τ → .stored u id json ∈ τ₁) → (∀ call, Running s₁ call → ¬ Running s call) →
        (s.redis.tables u).payload (idStr id) = none ∧
          idStr id ∉ (s.redis.tables u).schedule.members ∧
          (s.redis.tables u).attempts (idStr id) = none := by
  have htidy := Tidy.run hm hr
  refine ⟨htidy.noTrace, ?_⟩
  intro ls₁ ls₂ tid u ids id s₁ τ₁ hls hr₁ hid hst hfin
  subst hls
  obtain ⟨s₁', τ₁', τ', hr₁', hr', rfl⟩ := run_append hr
  rw [hr₁, Option.some.injEq, Prod.mk.injEq] at hr₁'
  obtain ⟨rfl, rfl⟩ := hr₁'
  obtain ⟨s₂, es, τ₂, hack, hr₂, rfl⟩ := run_cons hr'
  rw [← List.append_assoc] at hst
  have hb := Base.run hr₁
  have hg := Gone.run hr₁
  have hb₂ := hb.step hack
  have hg₂ := Gone.step hb hg (step_effect hack)
  obtain ⟨hbs, hgs⟩ := Gone.run_from hb₂ hg₂ hr₂
  have hpay := payload_acked hbs hgs hack hid hst
  have hlate := Late.run_from hb₂ hg₂ hack hid hr₂ hst
  have habsent : ¬ Present s.redis u (idStr id) := by
    intro hp
    rcases htidy.noTrace u _ hp with h | ⟨t, d, users, hth, hu, hh⟩
    · rw [hpay] at h
      exact absurd h (by simp)
    · exact hfin d.call (hlate hth hu hh) ⟨t, d, users, hth, rfl⟩
  rw [Present, not_or] at habsent
  exact ⟨hpay, habsent.1, by simpa using habsent.2⟩

/-- Alice's message to bob, dispatched at his login up to the `ZADD`. -/
def dispatched : List Label :=
  [.privateSend 0 (ascii "alice") (ascii "bob") (ascii "hi") (ascii "12:00") 7, .move 0 1000 false,
    .move 0 1000 true, .move 0 1000 false, .loginDispatch 1 (ascii "bob"), .move 1 1000 false,
    .move 1 1000 false, .move 1 1000 false, .move 1 1000 false, .move 1 1000 false,
    .move 1 1000 false, .move 1 1000 false]

/-- An acknowledgement after the `ZADD`, and the end of the call. -/
theorem ack_leaves_no_trace_once : ∃ s τ,
    run step {} (dispatched ++ .ackPending 0 (ascii "bob") [7] :: [.move 1 1000 false, .move 1 1000 false])
      = some (s, τ) ∧
    (s.redis.tables (ascii "bob")).payload (idStr 7) = none ∧
    idStr 7 ∉ (s.redis.tables (ascii "bob")).schedule.members ∧
    (s.redis.tables (ascii "bob")).attempts (idStr 7) = none := by
  have hm : Meets step RescheduledInTime {}
    (dispatched ++ .ackPending 0 (ascii "bob") [7] :: [.move 1 1000 false, .move 1 1000 false]) := by
    decide
  have hidle : ∀ t, (run step {} (dispatched ++ .ackPending 0 (ascii "bob") [7] ::
      [.move 1 1000 false, .move 1 1000 false])).map (fun p => p.1.threads t) = some .idle
    | 0 => rfl
    | 1 => rfl
    | _ + 2 => rfl
  obtain ⟨⟨s, τ⟩, hr⟩ := Option.isSome_iff_exists.mp (show (run step {} (dispatched ++
    .ackPending 0 (ascii "bob") [7] :: [.move 1 1000 false, .move 1 1000 false])).isSome = true from rfl)
  obtain ⟨s₁, τ₁, τ₂, hr₁, hr₂, hτ⟩ := run_append hr
  have hone : (run step s₁ (.ackPending 0 (ascii "bob") [7] ::
      [.move 1 1000 false, .move 1 1000 false])).map Prod.snd = some [.acked (ascii "bob") [7]] := by
    have h : ((run step {} dispatched).bind fun p => run step p.1 (.ackPending 0 (ascii "bob") [7] ::
      [.move 1 1000 false, .move 1 1000 false])).map Prod.snd = some [.acked (ascii "bob") [7]] := rfl
    rwa [hr₁] at h
  simp only [hr, hr₂, Option.map_some, Option.some.injEq] at hidle hone
  refine ⟨s, τ, hr, (ack_leaves_no_trace hm hr).2 rfl hr₁ List.mem_cons_self ?_ ?_⟩
  · intro json h
    rw [hτ, hone] at h
    simpa using h
  · rintro call - ⟨t, d, users, hth, -⟩
    rw [hidle t] at hth
    exact absurd hth (by simp)

/-- Alice's message to bob; his login dispatch has just sent it when he acknowledges it, and
    goes on to count it and to reschedule it. -/
def resurrection : List Label :=
  [.privateSend 0 (ascii "alice") (ascii "bob") (ascii "hi") (ascii "12:00") 7, .move 0 1000 false,
    .move 0 1000 true, .move 0 1000 false, .loginDispatch 1 (ascii "bob"), .move 1 1000 false,
    .move 1 1000 false, .move 1 1000 false, .move 1 1000 false, .move 1 1000 false,
    .ackPending 0 (ascii "bob") [7], .move 1 1000 false, .move 1 1000 false, .move 1 1000 false,
    .move 1 1000 false]

/-- **The acknowledged message is back** in the schedule, with no dispatch in progress. -/
theorem resurrected : ∃ s τ, run step {} resurrection = some (s, τ) ∧ ¬ NoTrace s := by
  obtain ⟨⟨s, τ⟩, hr⟩ := Option.isSome_iff_exists.mp
    (show (run step {} resurrection).isSome = true from rfl)
  have hidle : ∀ t, (run step {} resurrection).map (fun p => p.1.threads t) = some .idle
    | 0 => rfl
    | 1 => rfl
    | _ + 2 => rfl
  have hsched : (run step {} resurrection).map
      (fun p => (p.1.redis.tables (ascii "bob")).schedule.members) = some [idStr 7] := rfl
  have hpay : (run step {} resurrection).map
      (fun p => (p.1.redis.tables (ascii "bob")).payload (idStr 7)) = some none := rfl
  simp only [hr, Option.map_some, Option.some.injEq] at hidle hsched hpay
  refine ⟨s, τ, hr, fun h => ?_⟩
  have hp : Present s.redis (ascii "bob") (idStr 7) := Or.inl (by rw [hsched]; exact List.mem_cons_self)
  rcases h _ _ hp with h | ⟨t, d, users, hth, -, -⟩
  · rw [hpay] at h
    exact absurd h (by simp)
  · rw [hidle t] at hth
    exact absurd hth (by simp)

end Pending
end EpollChat
