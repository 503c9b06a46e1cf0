import EpollChat.Proof.Pending.Gone

/-!
# An acknowledged message is not sent again

A stale entry of the schedule can outlive the acknowledgement, so the guarantee rests on the
payloads alone: a call that reads the id after the acknowledgement finds nothing to send.
What could spoil it is a call that reads the same id twice, before and after. None does,
because the members of a sorted set are distinct; `Calls` says so for the ids each call has
still to read.
-/

namespace EpollChat
namespace Pending

open Lib Machine

/-! ## 1. Each call reads each id once -/

/-- The call may still read `i`. -/
def Phase.MayRead (p : Phase) (i : Bytes) : Prop := p = .range ∨ i ∈ p.todo

structure Calls (s : State) (τ : List Event) : Prop where
  hgets : ∀ {c u i}, .hget c u i ∈ τ → c < s.nextCall
  below : ∀ {t c}, (s.threads t).call = some c → c < s.nextCall
  distinct : ∀ {t t' c}, (s.threads t).call = some c → (s.threads t').call = some c → t = t'
  schedule : ∀ u, (s.redis.tables u).schedule.members.Nodup
  todo : ∀ {t d users}, s.threads t = .dispatch d users → d.phase.todo.Nodup
  unread : ∀ {t d users i}, s.threads t = .dispatch d users → d.phase.MayRead i →
    .hget d.call (cStr d.user) i ∉ τ

theorem dispatchStep_reads {r r' : Redis} {τ es : List Event} {d : Dispatch} {now : Int} {p : Phase}
    (ht : TablesOk r τ) (hs : ∀ u, (r.tables u).schedule.members.Nodup) (hnd : d.phase.todo.Nodup)
    (h : dispatchStep r d now = (some p, r', es)) :
    p.todo.Nodup ∧ ∀ i, p.MayRead i → d.phase.MayRead i ∧ .hget d.call (cStr d.user) i ∉ es := by
  obtain ⟨call, user, includeAll, phase⟩ := d
  dsimp only at hnd ⊢
  have hnone : ∀ {q : Phase}, q.todo = [] → q ≠ .range → q.todo.Nodup ∧ ∀ i, q.MayRead i →
      phase.MayRead i ∧ .hget call (cStr user) i ∉ es := by
    intro q hq hne
    refine ⟨by rw [hq]; exact List.nodup_nil, fun i hi => ?_⟩
    rcases hi with hi | hi
    · exact absurd hi hne
    · rw [hq] at hi
      exact absurd hi (by simp)
  have hcons : ∀ {q : Phase} {id : Bytes}, phase.todo = id :: q.todo → q ≠ .range →
      es = [.hget call (cStr user) id] →
      q.todo.Nodup ∧ ∀ i, q.MayRead i → phase.MayRead i ∧ .hget call (cStr user) i ∉ es := by
    intro q id hq hne hes
    rw [hq] at hnd
    obtain ⟨hid, hids⟩ := List.nodup_cons.mp hnd
    refine ⟨hids, fun i hi => ?_⟩
    rcases hi with hi | hi
    · exact absurd hi hne
    · refine ⟨Or.inr (by rw [hq]; exact List.mem_cons_of_mem _ hi), ?_⟩
      rw [hes]
      simp only [List.mem_singleton, Event.hget.injEq, true_and]
      rintro rfl
      exact hid hi
  cases dispatchMove h with
  | range _ =>
    have hsub := rangeIds_sublist (r.tables (cStr user)) includeAll now
    refine ⟨?_, fun i _ => ⟨Or.inl rfl, by simp⟩⟩
    rw [Phase.todo, ht.map_cStr hsub]
    exact (hs _).sublist hsub
  | fetch _ => exact hcons rfl (by simp) rfl
  | miss _ => exact hcons rfl (by simp) rfl
  | unschedule =>
    refine ⟨hnd, fun i hi => ⟨Or.inr ?_, by simp⟩⟩
    rcases hi with hi | hi
    · exact absurd hi (by simp)
    · exact hi
  | _ => exact hnone rfl (by simp)

theorem dispatchStep_nodup {r r' : Redis} {es : List Event} {d : Dispatch} {now : Int}
    {p : Option Phase} (hs : ∀ u, (r.tables u).schedule.members.Nodup)
    (h : dispatchStep r d now = (p, r', es)) (u : Bytes) :
    (r'.tables u).schedule.members.Nodup := by
  rcases dispatchStep_tables h with rfl | ⟨i, rfl⟩ | ⟨i, n, due, msgs, -, -, rfl⟩ |
    ⟨i, due, msgs, -, rfl⟩
  · exact hs u
  · rw [Redis.zremSchedule, Redis.modify_apply]
    split
    · exact SortedSet.nodup_zrem (hs u) i
    · exact hs u
  · rw [Redis.hsetAttempt, Redis.modify_apply]
    split <;> exact hs u
  · rw [Redis.zaddSchedule, Redis.modify_apply]
    split
    · exact SortedSet.nodup_zadd (hs u) due i
    · exact hs u

theorem Effect.nodup {s s' : State} {l : Label} {es : List Event} (h : Effect s l s' es)
    (hs : ∀ u, (s.redis.tables u).schedule.members.Nodup) (u : Bytes) :
    (s'.redis.tables u).schedule.members.Nodup := by
  cases h with
  | stay => exact hs u
  | plain _ _ _ => exact hs u
  | start _ => exact hs u
  | dispatch hth hd => exact dispatchStep_nodup hs hd u
  | @store _ tid target json id due hth hfresh =>
    show ((s.redis.storeScript target _ json due).tables u).schedule.members.Nodup
    rw [Redis.storeScript_tables]
    split
    · exact SortedSet.nodup_zadd (hs u) due _
    · exact hs u
  | @ack _ user ids =>
    show ((s.redis.ackScript user (ackedIds ids)).tables u).schedule.members.Nodup
    rw [Redis.ackScript, Redis.modify_apply]
    split
    · exact Redis.nodup_foldl_ackOne _ (hs u)
    · exact hs u

/-- A step moves one thread, and gives it no call number that is in use. -/
theorem Effect.calls {s s' : State} {l : Label} {es : List Event} (h : Effect s l s' es) :
    s.nextCall ≤ s'.nextCall ∧ ∃ tid, (∀ t, t ≠ tid → s'.threads t = s.threads t) ∧
      ∀ c, (s'.threads tid).call = some c →
        (s.threads tid).call = some c ∨ (c = s.nextCall ∧ s'.nextCall = s.nextCall + 1) := by
  have hplain : ∀ {pc : Pc}, pc.isDispatch = false → pc.call = none := by
    intro pc hpc
    cases pc with
    | dispatch d users => exact absurd hpc (by simp [Pc.isDispatch])
    | _ => rfl
  cases h with
  | stay => exact ⟨Nat.le_refl _, 0, fun _ _ => rfl, fun c hc => Or.inl hc⟩
  | @plain _ tid pc es hth hpc hes =>
    refine ⟨Nat.le_refl _, tid, fun t ht => setThread_other ht _ _, fun c hc => ?_⟩
    rw [setThread_same, hplain hpc] at hc
    exact absurd hc (by simp)
  | @start _ tid user includeAll users hth =>
    refine ⟨Nat.le_succ _, tid, fun t ht => setThread_other ht _ _, fun c hc => Or.inr ?_⟩
    rw [startDispatch, setThread_same, Pc.call, Option.some.injEq] at hc
    exact ⟨hc.symm, rfl⟩
  | @dispatch tid _ d users now p r es hth hd =>
    refine ⟨Nat.le_refl _, tid, fun t ht => setThread_other ht _ _, fun c hc => Or.inl ?_⟩
    rw [setThread_same] at hc
    rw [hth]
    cases p with
    | none => exact absurd hc (by simp [afterDispatch, Pc.call])
    | some phase => exact hc
  | @store _ tid target json id due hth hfresh =>
    refine ⟨Nat.le_refl _, tid, fun t ht => setThread_other ht _ _, fun c hc => ?_⟩
    rw [setThread_same] at hc
    exact absurd hc (by simp [Pc.call])
  | ack => exact ⟨Nat.le_refl _, 0, fun _ _ => rfl, fun c hc => Or.inl hc⟩

/-- Who reads and who sends. -/
theorem Effect.hget {s s' : State} {l : Label} {es : List Event} {c : Nat} {u i : Bytes}
    (h : Effect s l s' es) (he : .hget c u i ∈ es) :
    ∃ t d users, s.threads t = .dispatch d users ∧ d.call = c ∧ cStr d.user = u ∧
      i ∈ d.phase.todo := by
  cases h with
  | plain _ _ hes => exact absurd (hes _ he) (by simp [Event.isDirect])
  | dispatch hth hd =>
    rcases dispatchStep_events hd with rfl | ⟨j, ids, rfl, htodo⟩ | ⟨j, msg, rfl, -⟩
    · exact absurd he (by simp)
    · simp only [List.mem_singleton, Event.hget.injEq] at he
      obtain ⟨rfl, rfl, rfl⟩ := he
      exact ⟨_, _, _, hth, rfl, rfl, by rw [htodo]; exact List.mem_cons_self⟩
    · exact absurd he (by simp)
  | stay => exact absurd he (by simp)
  | start _ => exact absurd he (by simp)
  | store _ _ _ => exact absurd he (by simp)
  | ack => exact absurd he (by simp)

theorem Effect.sent {s s' : State} {l : Label} {es : List Event} {c : Nat} {u i msg : Bytes}
    (h : Effect s l s' es) (he : .sent c u i msg ∈ es) :
    ∃ t d users, s.threads t = .dispatch d users ∧ d.call = c ∧ cStr d.user = u ∧
      msg ∈ d.phase.msgs := by
  cases h with
  | plain _ _ hes => exact absurd (hes _ he) (by simp [Event.isDirect])
  | dispatch hth hd =>
    rcases dispatchStep_events hd with rfl | ⟨j, ids, rfl, -⟩ | ⟨j, msg, rfl, hmsg⟩
    · exact absurd he (by simp)
    · exact absurd he (by simp)
    · simp only [List.mem_singleton, Event.sent.injEq] at he
      obtain ⟨rfl, rfl, rfl, rfl⟩ := he
      exact ⟨_, _, _, hth, rfl, rfl, hmsg⟩
  | stay => exact absurd he (by simp)
  | start _ => exact absurd he (by simp)
  | store _ _ _ => exact absurd he (by simp)
  | ack => exact absurd he (by simp)

/-- No call reads an id a second time. -/
theorem Calls.hget_fresh {s s' : State} {τ es : List Event} {l : Label} {c : Nat} {u i : Bytes}
    (hc : Calls s τ) (h : Effect s l s' es) (he : .hget c u i ∈ es) : .hget c u i ∉ τ := by
  obtain ⟨t, d, users, hth, rfl, rfl, hi⟩ := h.hget he
  exact hc.unread hth (Or.inr hi)

/-- **One step keeps the calls apart.** -/
theorem Calls.step {s s' : State} {τ es : List Event} {l : Label} (hb : Base s τ) (hc : Calls s τ)
    (h : Effect s l s' es) : Calls s' (τ ++ es) := by
  obtain ⟨hle, tid, hother, hcall⟩ := h.calls
  have hnew : ∀ {t c}, t ≠ tid → (s'.threads t).call = some c → (s.threads t).call = some c := by
    intro t c ht h
    rwa [hother t ht] at h
  have hread : ∀ {t d users}, s'.threads t = .dispatch d users → d.phase.todo.Nodup ∧
      ∀ i, d.phase.MayRead i → .hget d.call (cStr d.user) i ∉ τ ++ es := by
    intro t d users ht
    rcases h.threads ht with ⟨ht, hes⟩ | ⟨hph, hcl, rfl⟩ | ⟨d₀, now, ht₀, hd, hcl, hus⟩
    · refine ⟨hc.todo ht, fun i hi hm => ?_⟩
      rcases List.mem_append.mp hm with hm | hm
      · exact hc.unread ht hi hm
      · -- the reader is another thread, in another call
        obtain ⟨t', hne, ht'⟩ := hes _ hm _ rfl
        exact hne (hc.distinct ht' (by rw [ht]; rfl))
    · refine ⟨by rw [hph]; exact List.nodup_nil, fun i _ hm => ?_⟩
      rw [List.append_nil, hcl] at hm
      exact absurd (hc.hgets hm) (Nat.lt_irrefl _)
    · obtain ⟨hnd, hmay⟩ := dispatchStep_reads hb.tables hc.schedule (hc.todo ht₀) hd
      refine ⟨hnd, fun i hi hm => ?_⟩
      obtain ⟨hi₀, hes⟩ := hmay i hi
      rw [hcl, hus] at hm
      rcases List.mem_append.mp hm with hm | hm
      · exact hc.unread ht₀ hi₀ hm
      · exact hes hm
  refine ⟨?_, ?_, ?_, h.nodup hc.schedule, fun ht => (hread ht).1, fun ht hi => (hread ht).2 _ hi⟩
  · intro c u i hm
    refine Nat.lt_of_lt_of_le ?_ hle
    rcases List.mem_append.mp hm with hm | hm
    · exact hc.hgets hm
    · obtain ⟨t, d, users, hth, rfl, -, -⟩ := h.hget hm
      exact hc.below (t := t) (by rw [hth]; rfl)
  · intro t c ht
    by_cases htt : t = tid
    · subst htt
      rcases hcall c ht with ht | ⟨rfl, hn⟩
      · exact Nat.lt_of_lt_of_le (hc.below ht) hle
      · rw [hn]
        exact Nat.lt_succ_self _
    · exact Nat.lt_of_lt_of_le (hc.below (hnew htt ht)) hle
  · -- a call number that has just been given out is below nobody's
    have hmix : ∀ {t c}, t ≠ tid → (s'.threads t).call = some c → (s'.threads tid).call = some c →
        t = tid := by
      intro t c htt ht ht'
      rcases hcall c ht' with ht' | ⟨rfl, -⟩
      · exact hc.distinct (hnew htt ht) ht'
      · exact absurd (hc.below (hnew htt ht)) (Nat.lt_irrefl _)
    intro t t' c ht ht'
    by_cases htt : t = tid
    · by_cases htt' : t' = tid
      · rw [htt, htt']
      · subst htt
        exact (hmix htt' ht' ht).symm
    · by_cases htt' : t' = tid
      · subst htt'
        exact hmix htt ht ht'
      · exact hc.distinct (hnew htt ht) (hnew htt' ht')

theorem Calls.start : Calls {} [] :=
  ⟨fun h => absurd h (by simp), fun h => absurd h (by simp [Pc.call]),
    fun h => absurd h (by simp [Pc.call]), fun _ => List.nodup_nil, fun h => absurd h (by simp),
    fun h => absurd h (by simp)⟩

/-! ## 2. What a call has in its hands -/

/-- `id` was stored for `u`, then acknowledged, and then read by the call `c`. -/
def ReadAfterAck (τ : List Event) (u : Bytes) (id : UInt64) (c : Nat) : Prop :=
  ∃ json ids, [Event.stored u id json, .acked u ids, .hget c u (idStr id)].Sublist τ ∧ id ∈ ids

theorem ReadAfterAck.of_append {τ es : List Event} {u : Bytes} {id : UInt64} {c : Nat}
    (h : ReadAfterAck (τ ++ es) u id c) (hes : .hget c u (idStr id) ∉ es) :
    ReadAfterAck τ u id c := by
  obtain ⟨json, ids, hsub, hid⟩ := h
  exact ⟨json, ids, sublist_of_last_not_mem (l := [Event.stored u id json, .acked u ids]) hsub hes, hid⟩

/-- A message of `id` was read by the call, and not after an acknowledgement. -/
def ReadInTime (τ : List Event) (u msg : Bytes) (c : Nat) : Prop :=
  ∀ id, extractJsonValue msg (ascii "msg_id") = idStr id →
    .hget c u (idStr id) ∈ τ ∧ ¬ ReadAfterAck τ u id c

structure Fetches (s : State) (τ : List Event) : Prop where
  held : ∀ {t d users msg}, s.threads t = .dispatch d users → msg ∈ d.phase.msgs →
    ReadInTime τ (cStr d.user) msg d.call
  sent : ∀ {c u i msg}, .sent c u i msg ∈ τ → ReadInTime τ u msg c

theorem ReadInTime.step {s s' : State} {τ es : List Event} {l : Label} {u msg : Bytes} {c : Nat}
    (hc : Calls s τ) (h : Effect s l s' es) (hr : ReadInTime τ u msg c) :
    ReadInTime (τ ++ es) u msg c := by
  intro id hid
  obtain ⟨hget, hnot⟩ := hr id hid
  refine ⟨List.mem_append_left _ hget, fun hlate => hnot (hlate.of_append fun hm => ?_)⟩
  exact hc.hget_fresh h hm hget

/-- A message just read had a payload, so it had not been acknowledged. -/
theorem ReadInTime.read {s : State} {τ : List Event} {u i json : Bytes} {c : Nat} (hb : Base s τ)
    (hg : Gone s τ) (hp : (s.redis.tables u).payload i = some json) (hfresh : .hget c u i ∉ τ) :
    ReadInTime (τ ++ [.hget c u i]) u (cStr json) c := by
  obtain ⟨id', rfl, hst⟩ := hb.tables.payload hp
  intro id hid
  rw [(hb.message hst).2.extract_cStr] at hid
  obtain rfl := idStr_inj hid
  refine ⟨by simp, ?_⟩
  rintro ⟨json', ids, hsub, hmem⟩
  rcases sublist_concat hsub with hsub | ⟨l, hl, hl'⟩
  · exact hfresh (hsub.subset (by simp))
  · have hl'' : l = [Event.stored u id' json', .acked u ids] := by
      have := congrArg List.dropLast hl
      simpa using this.symm
    rw [hl''] at hl'
    rw [hg ⟨json', ids, hl', hmem⟩] at hp
    exact absurd hp (by simp)

/-- **One step keeps every message in hand in time.** -/
theorem Fetches.step {s s' : State} {τ es : List Event} {l : Label} (hb : Base s τ) (hg : Gone s τ)
    (hc : Calls s τ) (hf : Fetches s τ) (h : Effect s l s' es) : Fetches s' (τ ++ es) := by
  refine ⟨?_, ?_⟩
  · intro t d users msg ht hmsg
    rcases h.threads ht with ⟨ht, -⟩ | ⟨hph, -, -⟩ | ⟨d₀, now, ht₀, hd, hcl, hus⟩
    · exact (hf.held ht hmsg).step hc h
    · rw [hph] at hmsg
      exact absurd hmsg (by simp [Phase.msgs])
    · rw [hcl, hus]
      rcases dispatchStep_msgs hd msg hmsg with hmsg | ⟨i, json, hi, hp, rfl, rfl⟩
      · exact (hf.held ht₀ hmsg).step hc h
      · exact ReadInTime.read hb hg hp (hc.unread ht₀ (Or.inr hi))
  · intro c u i msg he
    rcases List.mem_append.mp he with he | he
    · exact (hf.sent he).step hc h
    · obtain ⟨t, d, users, hth, rfl, rfl, hmsg⟩ := h.sent he
      exact (hf.held hth hmsg).step hc h

theorem Fetches.start : Fetches {} [] :=
  ⟨fun h => absurd h (by simp), fun h => absurd h (by simp)⟩

theorem Fetches.run {ls : List Label} {s : State} {τ : List Event}
    (hr : run Pending.step {} ls = some (s, τ)) : Fetches s τ := by
  have h := run_inv (fun s τ => Base s τ ∧ Gone s τ ∧ Calls s τ ∧ Fetches s τ) ?_
    ⟨Base.start, Gone.start, Calls.start, Fetches.start⟩ hr
  · exact h.2.2.2
  · rintro s τ l s' es ⟨hb, hg, hc, hf⟩ hs
    have he := step_effect hs
    exact ⟨hb.step hs, Gone.step hb hg he, Calls.step hb hc he, Fetches.step hb hg hc hf he⟩

/-! ## 3. No second time -/

/-- **An acknowledged message is not sent again.** If `ackPendingMessage(u, ids)` with `m` in
    `ids` runs after `m` was stored for `u`, a call whose `HGET` of `m` comes after that
    passes `m`'s payload to `sendPacket` at no point of the run. -/
theorem acked_is_not_resent {ls : List Label} {s : State} {τ : List Event}
    (hr : run step {} ls = some (s, τ)) {u json : Bytes} {m : UInt64} {ids : List UInt64} {call : Nat}
    (horder : [Event.stored u m json, .acked u ids, .hget call u (idStr m)].Sublist τ)
    (hm : m ∈ ids) : ∀ i, .sent call u i (cStr json) ∉ τ := by
  intro i hsent
  have hst : Event.stored u m json ∈ τ := horder.subset (by simp)
  have hid := ((Base.run hr).message hst).2.extract_cStr
  exact ((Fetches.run hr).sent hsent m hid).2 ⟨json, ids, horder, hm⟩

/-- Bob acknowledges message 7 after his login dispatch has read its id and before it reads
    its payload. -/
theorem acked_is_not_resent_once : ∃ s τ, run step {}
    [.privateSend 0 (ascii "alice") (ascii "bob") (ascii "hi") (ascii "12:00") 7, .move 0 1000 false,
      .loginDispatch 1 (ascii "bob"), .move 1 1000 false, .ackPending 2 (ascii "bob") [7],
      .move 1 1000 false, .move 1 1000 false, .move 1 1000 false, .move 1 1000 false] = some (s, τ) ∧
    .hget 0 (ascii "bob") (idStr 7) ∈ τ ∧
    ∀ i, .sent 0 (ascii "bob") i (cStr (buildEnrichedChatBodyWithMsgId 7 (ascii "alice") (ascii "bob")
      (ascii "hi") (ascii "12:00"))) ∉ τ := by
  have hτ : (run step {}
    [.privateSend 0 (ascii "alice") (ascii "bob") (ascii "hi") (ascii "12:00") 7, .move 0 1000 false,
      .loginDispatch 1 (ascii "bob"), .move 1 1000 false, .ackPending 2 (ascii "bob") [7],
      .move 1 1000 false, .move 1 1000 false, .move 1 1000 false, .move 1 1000 false]).map Prod.snd
      = some [.stored (ascii "bob") 7 (buildEnrichedChatBodyWithMsgId 7 (ascii "alice") (ascii "bob")
          (ascii "hi") (ascii "12:00")), .acked (ascii "bob") [7],
        .hget 0 (ascii "bob") (idStr 7)] := rfl
  obtain ⟨⟨s, τ⟩, hr, hsnd⟩ := Option.map_eq_some_iff.mp hτ
  dsimp only at hsnd
  subst hsnd
  exact ⟨s, _, hr, by simp, acked_is_not_resent hr (List.Sublist.refl _) List.mem_cons_self⟩

end Pending
end EpollChat
