import EpollChat.Proof.Pending.Kept

/-!
# What a step can do, and that an acknowledged message stays gone

`Effect` says once what a step of any thread does to the state and to the trace; the
invariants about resurrected entries and about repeated sends start from it. The first of
them is `Gone`: once a stored message has been acknowledged it has no payload, in no later
state, because no id is stored twice and nothing but a store writes a payload.
-/

namespace EpollChat
namespace Pending

open Lib Machine

/-! ## 1. The effect of a step -/

def Pc.isDispatch : Pc → Bool
  | .dispatch _ _ => true
  | _ => false

/-- Answers to the sender and direct sends. -/
def Event.isDirect : Event → Bool
  | .received .. => true
  | .sentDirect .. => true
  | _ => false

/-- Where a thread goes after a step of a dispatch. -/
def afterDispatch (d : Dispatch) (users : List Bytes) : Option Phase → Pc
  | some phase => .dispatch { d with phase := phase } users
  | none => .scan users

inductive Effect (s : State) : Label → State → List Event → Prop where
  | stay {l : Label} : Effect s l s []
  | plain {l : Label} {tid : Nat} {pc : Pc} {es : List Event}
      (hth : (s.threads tid).isDispatch = false) (hpc : pc.isDispatch = false)
      (hes : ∀ e ∈ es, e.isDirect = true) : Effect s l (setThread s tid pc) es
  | start {l : Label} {tid : Nat} {user : Bytes} {includeAll : Bool} {users : List Bytes}
      (hth : (s.threads tid).isDispatch = false) :
      Effect s l (startDispatch s tid user includeAll users) []
  | dispatch {tid : Nat} {flag : Bool} {d : Dispatch} {users : List Bytes} {now : Int}
      {p : Option Phase} {r : Redis} {es : List Event} (hth : s.threads tid = .dispatch d users)
      (hd : dispatchStep s.redis d now = (p, r, es)) :
      Effect s (.move tid now flag) (setThread { s with redis := r } tid (afterDispatch d users p)) es
  | store {l : Label} {tid : Nat} {target json : Bytes} {id : UInt64} (due : Int)
      (hth : s.threads tid = .store target id json) (hfresh : id ∉ s.storedIds) :
      Effect s l (setThread
        { s with
          redis := s.redis.storeScript target (toDecimal (effectiveId id json)) json due
          storedIds := id :: s.storedIds } tid (.ackSender target id json))
        [.stored target id json]
  | ack {tid : Nat} {user : Bytes} {ids : List UInt64} :
      Effect s (.ackPending tid user ids)
        { s with redis := s.redis.ackScript user (ackedIds ids) } [.acked user ids]

theorem store_effect {s s' : State} {l : Label} {tid : Nat} {target json : Bytes} {id : UInt64} {now : Int}
    {es : List Event} (hth : s.threads tid = .store target id json)
    (h : store s tid target id json now = some (s', es)) : Effect s l s' es := by
  unfold store at h
  split at h
  · simp only [Option.some.injEq, Prod.mk.injEq] at h
    obtain ⟨rfl, rfl⟩ := h
    exact .plain (by rw [hth]; rfl) rfl (by simp)
  · split at h
    · exact absurd h (by simp)
    · next hfresh =>
      simp only [Option.some.injEq, Prod.mk.injEq] at h
      obtain ⟨rfl, rfl⟩ := h
      exact .store _ hth hfresh

theorem move_effect {s s' : State} {tid : Nat} {now : Int} {flag : Bool} {es : List Event}
    (h : move s tid now flag = some (s', es)) : Effect s (.move tid now flag) s' es := by
  unfold move at h
  cases hth : s.threads tid with
  | idle => rw [hth] at h; exact absurd h (by simp)
  | store target id json =>
    rw [hth] at h
    exact store_effect hth h
  | ackSender target id json =>
    rw [hth] at h
    simp only [Option.some.injEq, Prod.mk.injEq] at h
    obtain ⟨rfl, rfl⟩ := h
    exact .plain (by rw [hth]; rfl) rfl (by cases flag <;> simp [Event.isDirect])
  | sendTarget target id json =>
    rw [hth] at h
    simp only [Option.some.injEq, Prod.mk.injEq] at h
    obtain ⟨rfl, rfl⟩ := h
    exact .plain (by rw [hth]; rfl) rfl (by cases flag <;> simp [Event.isDirect])
  | scan users =>
    rw [hth] at h
    cases users with
    | nil =>
      simp only [Option.some.injEq, Prod.mk.injEq] at h
      obtain ⟨rfl, rfl⟩ := h
      exact .plain (by rw [hth]; rfl) rfl (by simp)
    | cons user users =>
      dsimp only at h
      split at h
      · simp only [Option.some.injEq, Prod.mk.injEq] at h
        obtain ⟨rfl, rfl⟩ := h
        exact .start (by rw [hth]; rfl)
      · simp only [Option.some.injEq, Prod.mk.injEq] at h
        obtain ⟨rfl, rfl⟩ := h
        exact .plain (by rw [hth]; rfl) rfl (by simp)
  | dispatch d users =>
    rw [hth] at h
    dsimp only at h
    cases hd : dispatchStep s.redis d now with
    | mk p q =>
      obtain ⟨r, es'⟩ := q
      rw [hd] at h
      cases p with
      | some phase =>
        simp only [Option.some.injEq, Prod.mk.injEq] at h
        obtain ⟨rfl, rfl⟩ := h
        exact .dispatch hth hd
      | none =>
        simp only [Option.some.injEq, Prod.mk.injEq] at h
        obtain ⟨rfl, rfl⟩ := h
        exact .dispatch hth hd

theorem step_effect {s s' : State} {l : Label} {es : List Event}
    (h : step s l = some (s', es)) : Effect s l s' es := by
  cases l with
  | privateSend tid sender target content ts id =>
    simp only [step] at h
    split at h
    · next hth =>
      split at h
      · exact absurd h (by simp)
      · simp only [Option.some.injEq, Prod.mk.injEq] at h
        obtain ⟨rfl, rfl⟩ := h
        exact .plain (by rw [hth]; rfl) rfl (by simp)
    · exact absurd h (by simp)
  | loginDispatch tid user =>
    simp only [step] at h
    split at h
    · next hth =>
      simp only [Option.some.injEq, Prod.mk.injEq] at h
      obtain ⟨rfl, rfl⟩ := h
      exact .start (by rw [hth]; rfl)
    · exact absurd h (by simp)
  | retryScan tid =>
    simp only [step] at h
    split at h
    · next hth =>
      simp only [Option.some.injEq, Prod.mk.injEq] at h
      obtain ⟨rfl, rfl⟩ := h
      exact .plain (by rw [hth]; rfl) rfl (by simp)
    · exact absurd h (by simp)
  | ackPending tid user ids =>
    simp only [step] at h
    split at h
    · split at h
      · simp only [Option.some.injEq, Prod.mk.injEq] at h
        obtain ⟨rfl, rfl⟩ := h
        exact .stay
      · simp only [Option.some.injEq, Prod.mk.injEq] at h
        obtain ⟨rfl, rfl⟩ := h
        exact .ack
    · exact absurd h (by simp)
  | move tid now flag => exact move_effect h

/-- What a dispatch says in the trace: the id it reads is the next one, the message it sends
    one it has. -/
theorem dispatchStep_events {r r' : Redis} {d : Dispatch} {now : Int} {p : Option Phase}
    {es : List Event} (h : dispatchStep r d now = (p, r', es)) :
    es = [] ∨ (∃ i ids, es = [.hget d.call (cStr d.user) i] ∧ d.phase.todo = i :: ids) ∨
      ∃ id msg, es = [.sent d.call (cStr d.user) id msg] ∧ msg ∈ d.phase.msgs := by
  obtain ⟨call, user, includeAll, phase⟩ := d
  cases dispatchMove h with
  | @fetch i ids msgs json hp => exact Or.inr (Or.inl ⟨i, ids, rfl, rfl⟩)
  | @miss i ids msgs hp => exact Or.inr (Or.inl ⟨i, ids, rfl, rfl⟩)
  | @send msg i attempt msgs => exact Or.inr (Or.inr ⟨i, msg, rfl, List.mem_cons_self⟩)
  | _ => exact Or.inl rfl

/-- The call an event of a dispatch belongs to. -/
def Event.call : Event → Option Nat
  | .hget c _ _ => some c
  | .sent c _ _ _ => some c
  | _ => none

theorem dispatchStep_call {r r' : Redis} {d : Dispatch} {now : Int} {p : Option Phase}
    {es : List Event} {e : Event} {c : Nat} (h : dispatchStep r d now = (p, r', es))
    (he : e ∈ es) (hc : e.call = some c) : d.call = c := by
  rcases dispatchStep_events h with rfl | ⟨j, ids, rfl, -⟩ | ⟨j, msg, rfl, -⟩
  · exact absurd he (by simp)
  · rw [List.mem_singleton.mp he] at hc
    exact Option.some.inj hc
  · rw [List.mem_singleton.mp he] at hc
    exact Option.some.inj hc

/-- The call a thread is in. -/
def Pc.call : Pc → Option Nat
  | .dispatch d _ => some d.call
  | _ => none

/-- Where a dispatch comes from: it was there and another thread moved, it has just been
    called, or it has just taken a step. -/
theorem Effect.threads {s s' : State} {l : Label} {es : List Event} (h : Effect s l s' es)
    {t : Nat} {d : Dispatch} {users : List Bytes} (ht : s'.threads t = .dispatch d users) :
    (s.threads t = .dispatch d users ∧
        ∀ e ∈ es, ∀ c, e.call = some c → ∃ t', t' ≠ t ∧ (s.threads t').call = some c) ∨
      (d.phase = .range ∧ d.call = s.nextCall ∧ es = []) ∨
      ∃ d₀ now, s.threads t = .dispatch d₀ users ∧
        dispatchStep s.redis d₀ now = (some d.phase, s'.redis, es) ∧ d.call = d₀.call ∧
        d.user = d₀.user := by
  have hother : ∀ {s₀ : State} {tid pc}, s₀.threads = s.threads → t ≠ tid →
      (setThread s₀ tid pc).threads t = .dispatch d users → s.threads t = .dispatch d users := by
    intro s₀ tid pc hs hne h
    rw [setThread_other hne, hs] at h
    exact h
  cases h with
  | stay => exact Or.inl ⟨ht, by simp⟩
  | @plain _ tid pc es hth hpc hes =>
    by_cases htt : t = tid
    · subst htt
      rw [setThread_same] at ht
      rw [ht] at hpc
      exact absurd hpc (by simp [Pc.isDispatch])
    · refine Or.inl ⟨hother rfl htt ht, fun e he c hc => ?_⟩
      have hdirect := hes e he
      cases e with
      | received u id json => exact absurd hc (by simp [Event.call])
      | sentDirect u id json => exact absurd hc (by simp [Event.call])
      | _ => exact absurd hdirect (by simp [Event.isDirect])
  | @start _ tid user includeAll users' hth =>
    by_cases htt : t = tid
    · subst htt
      rw [startDispatch, setThread_same, Pc.dispatch.injEq] at ht
      obtain ⟨rfl, rfl⟩ := ht
      exact Or.inr (Or.inl ⟨rfl, rfl, rfl⟩)
    · exact Or.inl ⟨hother rfl htt ht, by simp⟩
  | @dispatch tid _ d₀ users' now p r es hth hd =>
    by_cases htt : t = tid
    · subst htt
      rw [setThread_same] at ht
      cases p with
      | none => exact absurd ht (by simp [afterDispatch])
      | some phase =>
        rw [afterDispatch, Pc.dispatch.injEq] at ht
        obtain ⟨rfl, rfl⟩ := ht
        exact Or.inr (Or.inr ⟨d₀, now, hth, hd, rfl, rfl⟩)
    · refine Or.inl ⟨hother rfl htt ht, fun e he c hc => ⟨tid, fun h => htt h.symm, ?_⟩⟩
      rw [hth, Pc.call, dispatchStep_call hd he hc]
  | @store _ tid target json id due hth hfresh =>
    by_cases htt : t = tid
    · subst htt
      rw [setThread_same] at ht
      exact absurd ht (by simp)
    · exact Or.inl ⟨hother rfl htt ht, by simp [Event.call]⟩
  | ack => exact Or.inl ⟨ht, by simp [Event.call]⟩

/-- What a dispatch does to the tables, by where it is. -/
theorem dispatchStep_tables {r r' : Redis} {d : Dispatch} {now : Int} {p : Option Phase}
    {es : List Event} (h : dispatchStep r d now = (p, r', es)) :
    r' = r ∨ (∃ i, r' = r.zremSchedule (cStr d.user) i) ∨
      (∃ i n due msgs, d.phase = .count i n due msgs ∧ p = some (.reschedule i due msgs) ∧
        r' = r.hsetAttempt (cStr d.user) i n) ∨
      ∃ i due msgs, d.phase = .reschedule i due msgs ∧ r' = r.zaddSchedule (cStr d.user) i due := by
  obtain ⟨call, user, includeAll, phase⟩ := d
  cases dispatchMove h with
  | @unschedule i ids msgs => exact Or.inr (Or.inl ⟨i, rfl⟩)
  | @count i nextAttempt nextDue msgs =>
    exact Or.inr (Or.inr (Or.inl ⟨i, nextAttempt, nextDue, msgs, rfl, rfl, rfl⟩))
  | @reschedule i nextDue msgs => exact Or.inr (Or.inr (Or.inr ⟨i, nextDue, msgs, rfl, rfl⟩))
  | _ => exact Or.inl rfl

theorem dispatchStep_payload {r r' : Redis} {d : Dispatch} {now : Int} {p : Option Phase}
    {es : List Event} (h : dispatchStep r d now = (p, r', es)) (u : Bytes) :
    (r'.tables u).payload = (r.tables u).payload := by
  rcases dispatchStep_tables h with rfl | ⟨i, rfl⟩ | ⟨i, n, due, msgs, -, -, rfl⟩ |
    ⟨i, due, msgs, -, rfl⟩
  · rfl
  · rw [Redis.zremSchedule, Redis.modify_apply]; split <;> rfl
  · rw [Redis.hsetAttempt, Redis.modify_apply]; split <;> rfl
  · rw [Redis.zaddSchedule, Redis.modify_apply]; split <;> rfl

/-- Where a dispatch goes: the messages it has are the ones it had, less some, and at most
    the payload it has just read. -/
theorem dispatchStep_msgs {r r' : Redis} {d : Dispatch} {now : Int} {p : Phase}
    {es : List Event} (h : dispatchStep r d now = (some p, r', es)) :
    ∀ m ∈ p.msgs, m ∈ d.phase.msgs ∨ ∃ i json, i ∈ d.phase.todo ∧
      (r.tables (cStr d.user)).payload i = some json ∧ m = cStr json ∧
      es = [.hget d.call (cStr d.user) i] := by
  obtain ⟨call, user, includeAll, phase⟩ := d
  intro m hm
  cases dispatchMove h with
  | range _ => exact absurd hm (by simp [Phase.msgs])
  | @fetch i ids msgs json hp =>
    rcases List.mem_append.mp hm with hm | hm
    · exact Or.inl hm
    · rw [List.mem_singleton] at hm
      exact Or.inr ⟨i, json, List.mem_cons_self, hp, hm, rfl⟩
  | skip _ _ => exact Or.inl (List.mem_cons_of_mem _ hm)
  | send => exact Or.inl (List.mem_cons_of_mem _ hm)
  | _ => exact Or.inl hm

/-- The id a dispatch is busy with is the one it was, or that of a message it has. -/
theorem dispatchStep_busy {r r' : Redis} {d : Dispatch} {now : Int} {p : Phase}
    {es : List Event} (h : dispatchStep r d now = (some p, r', es)) {i : Bytes}
    (hi : p.busy = some i) :
    d.phase.busy = some i ∨ ∃ m ∈ d.phase.msgs, extractJsonValue m (ascii "msg_id") = i := by
  obtain ⟨call, user, includeAll, phase⟩ := d
  cases dispatchMove h with
  | @serve msg msgs j attempt hid _ _ _ =>
    exact Or.inr ⟨msg, List.mem_cons_self, hid.trans (Option.some.inj hi)⟩
  | send => exact Or.inl hi
  | count => exact Or.inl hi
  | _ => exact absurd hi (by simp [Phase.busy])

/-! ## 2. Acknowledged messages -/

/-- Stored, and acknowledged after that. -/
def AckedSince (τ : List Event) (u : Bytes) (id : UInt64) : Prop :=
  ∃ json ids, [Event.stored u id json, Event.acked u ids].Sublist τ ∧ id ∈ ids

/-- An acknowledged message has no payload. -/
def Gone (s : State) (τ : List Event) : Prop :=
  ∀ ⦃u id⦄, AckedSince τ u id → (s.redis.tables u).payload (idStr id) = none

theorem AckedSince.of_append {τ es : List Event} {u : Bytes} {id : UInt64}
    (h : AckedSince (τ ++ es) u id) (hack : ∀ ids, .acked u ids ∉ es) : AckedSince τ u id := by
  obtain ⟨json, ids, hsub, hid⟩ := h
  exact ⟨json, ids, sublist_of_last_not_mem (l := [Event.stored u id json]) hsub (hack ids), hid⟩

theorem Gone.step {s s' : State} {τ es : List Event} {l : Label} (hb : Base s τ) (hg : Gone s τ)
    (h : Effect s l s' es) : Gone s' (τ ++ es) := by
  intro u id hack
  cases h with
  | stay => rw [List.append_nil] at hack; exact hg hack
  | plain _ hpc hes =>
    refine hg (hack.of_append fun ids hm => ?_)
    exact absurd (hes _ hm) (by simp [Event.isDirect])
  | start _ => rw [List.append_nil] at hack; exact hg hack
  | @dispatch tid _ d users now p r es hth hd =>
    have hpc := hb.threads tid
    rw [hth] at hpc
    obtain ⟨htouch, hq, -⟩ := dispatchStep_spec hb.tables (fun h => (hb.message h).2) hpc hd
    show (r.tables u).payload (idStr id) = none
    rw [htouch.payload]
    refine hg (hack.of_append fun ids hm => ?_)
    exact absurd (hq _ hm) (by simp [Quiet])
  | @store _ tid target json id' due hth hfresh =>
    -- the new id is another one, or it would have been stored before
    obtain ⟨json', ids, hsub, hid⟩ := hack
    rcases sublist_concat hsub with hsub | ⟨l', hl, -⟩
    · have hmsg : IsMessage id' json := by
        have hpc := hb.threads tid
        rw [hth] at hpc
        exact hpc
      have hne : idStr id ≠ idStr id' := by
        intro heq
        rw [← idStr_inj heq] at hfresh
        exact hfresh (hb.ids (hsub.subset List.mem_cons_self))
      show ((s.redis.storeScript target (toDecimal (effectiveId id' json)) json due).tables u).payload
        (idStr id) = none
      rw [effectiveId_eq hmsg, Redis.storeScript_tables]
      split
      · show Function.update (s.redis.tables u).payload (idStr id') (some json) (idStr id) = none
        rw [Function.update_of_ne hne]
        exact hg ⟨json', ids, hsub, hid⟩
      · exact hg ⟨json', ids, hsub, hid⟩
    · have := congrArg List.getLast? hl
      simp at this
  | @ack _ user ids' =>
    show ((s.redis.ackScript user (ackedIds ids')).tables u).payload (idStr id) = none
    obtain ⟨json, ids, hsub, hid⟩ := hack
    rcases sublist_concat hsub with hsub | ⟨l', hl, hl'⟩
    · have hnone := hg ⟨json, ids, hsub, hid⟩
      by_cases hu : u = user
      · subst hu
        rw [Redis.ackScript_payload, hnone]
        split <;> rfl
      · rw [Redis.ackScript, Redis.modify_other _ _ hu]
        exact hnone
    · -- the acknowledgement is this one
      have hlast := congrArg List.getLast? hl
      simp only [List.getLast?_append, List.getLast?_cons_cons, List.getLast?_singleton,
        Option.some_or, Option.some.injEq, Event.acked.injEq] at hlast
      obtain ⟨rfl, rfl⟩ := hlast
      have hst : Event.stored u id json ∈ τ := by
        have hl'' : l' = [Event.stored u id json] := by
          have := congrArg List.dropLast hl
          simpa using this.symm
        rw [hl''] at hl'
        exact List.singleton_sublist.mp hl'
      rw [Redis.ackScript_payload, if_pos (mem_ackedIds.mpr ⟨hid, (hb.message hst).1⟩)]

theorem Gone.start : Gone {} [] := by
  rintro u id ⟨json, ids, hsub, -⟩
  exact absurd hsub (by simp)

/-- Along a run from a state where both hold. -/
theorem Gone.run_from {ls : List Label} {s s' : State} {τ τ' : List Event} (hb : Base s τ)
    (hg : Gone s τ) (hr : run Pending.step s ls = some (s', τ')) :
    Base s' (τ ++ τ') ∧ Gone s' (τ ++ τ') := by
  refine run_inv (fun s τ => Base s τ ∧ Gone s τ) ?_ ⟨hb, hg⟩ hr
  rintro s τ l s' es ⟨hb, hg⟩ hs
  exact ⟨hb.step hs, Gone.step hb hg (step_effect hs)⟩

theorem Gone.run {ls : List Label} {s : State} {τ : List Event}
    (hr : run Pending.step {} ls = some (s, τ)) : Gone s τ := by
  have h := (Gone.run_from Base.start Gone.start hr).2
  rwa [List.nil_append] at h

end Pending
end EpollChat
