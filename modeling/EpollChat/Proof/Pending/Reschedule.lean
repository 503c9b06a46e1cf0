import EpollChat.Proof.Pending.Retries

/-!
# A dispatch reschedules the message it sent

A dispatch fetches a message by its id, but counts and reschedules it under whatever id
`extractJsonValue` finds in the text. Sender, target and content of that text are the
client's, and the text has been cut at a NUL on the way. The id stands in front of all of
them, so that every scanner resolves to it.

`Follows` connects the three commands of one round of the dispatch loop across the steps of
other threads: the id a call is about to write is that of the text it passed to `sendPacket`
last.
-/

namespace EpollChat
namespace Pending

open Lib Machine Pb

/-! ## 1. What a call sent last -/

/-- The text, if the event is a send of the call `c`. -/
def Event.sentBy (c : Nat) : Event → Option Bytes
  | .sent c' _ _ msg => if c' = c then some msg else none
  | _ => none

def lastSent (c : Nat) (τ : List Event) : Option Bytes := (τ.filterMap (Event.sentBy c)).getLast?

theorem lastSent_append {c : Nat} {τ es : List Event} (h : ∀ e ∈ es, e.sentBy c = none) :
    lastSent c (τ ++ es) = lastSent c τ := by
  have hnil : es.filterMap (Event.sentBy c) = [] := List.filterMap_eq_nil_iff.mpr h
  rw [lastSent, List.filterMap_append, hnil, List.append_nil, lastSent]

theorem lastSent_concat (c : Nat) (u i msg : Bytes) (τ : List Event) :
    lastSent c (τ ++ [.sent c u i msg]) = some msg := by
  rw [lastSent, List.filterMap_append]
  simp [Event.sentBy]

/-- Events of other calls. -/
theorem sentBy_of_call {c : Nat} {e : Event} (h : e.call ≠ some c) : e.sentBy c = none := by
  cases e with
  | sent c' u i msg => exact if_neg fun heq => h (by rw [Event.call, heq])
  | _ => rfl

theorem lastSent_eq_none {c : Nat} {τ : List Event} (h : ∀ u i msg, .sent c u i msg ∉ τ) :
    lastSent c τ = none := by
  refine (congrArg List.getLast? (List.filterMap_eq_nil_iff.mpr fun e he => ?_)).trans List.getLast?_nil
  cases e with
  | sent c' u i msg =>
    refine if_neg ?_
    rintro rfl
    exact h u i msg he
  | _ => rfl

/-! ## 2. The id a call writes -/

/-- `fetchPendingMessages` has not returned. -/
def Phase.fetching : Phase → Bool
  | .range => true
  | .fetch _ _ => true
  | .unschedule _ _ _ => true
  | _ => false

structure Follows (s : State) (τ : List Event) : Prop where
  numbered : ∀ {c u i msg}, .sent c u i msg ∈ τ → c < s.nextCall
  named : ∀ {t d users}, s.threads t = .dispatch d users → d.phase.Named
  fetching : ∀ {t d users}, s.threads t = .dispatch d users → d.phase.fetching = true →
    lastSent d.call τ = none
  served : ∀ {t d users i}, s.threads t = .dispatch d users → i ∈ d.phase.served →
    ∃ msg, lastSent d.call τ = some msg ∧ extractJsonValue msg (ascii "msg_id") = i

theorem dispatchStep_fetching {r r' : Redis} {d : Dispatch} {now : Int} {q : Phase} {es : List Event}
    (h : dispatchStep r d now = (some q, r', es)) (hq : q.fetching = true) :
    d.phase.fetching = true ∧ ∀ e ∈ es, ∀ c, e.sentBy c = none := by
  obtain ⟨call, user, includeAll, phase⟩ := d
  cases dispatchMove h with
  | range _ => exact ⟨rfl, by simp⟩
  | fetch _ => exact ⟨rfl, by simp [Event.sentBy]⟩
  | miss _ => exact ⟨rfl, by simp [Event.sentBy]⟩
  | unschedule => exact ⟨rfl, by simp⟩
  | _ => exact absurd hq (by simp [Phase.fetching])

/-- The call's own step. -/
theorem dispatchStep_served {r r' : Redis} {τ es : List Event} {d : Dispatch} {now : Int} {q : Phase}
    (hnamed : d.phase.Named)
    (hserved : ∀ i ∈ d.phase.served,
      ∃ msg, lastSent d.call τ = some msg ∧ extractJsonValue msg (ascii "msg_id") = i)
    (h : dispatchStep r d now = (some q, r', es)) :
    ∀ i ∈ q.served,
      ∃ msg, lastSent d.call (τ ++ es) = some msg ∧ extractJsonValue msg (ascii "msg_id") = i := by
  obtain ⟨call, user, includeAll, phase⟩ := d
  dsimp only at hnamed hserved ⊢
  intro i hi
  cases dispatchMove h with
  | @send msg j attempt msgs =>
    obtain rfl := List.mem_singleton.mp hi
    exact ⟨msg, lastSent_concat .., hnamed⟩
  | count =>
    rw [List.append_nil]
    exact hserved i hi
  | _ => exact absurd hi List.not_mem_nil

theorem Follows.step {s s' : State} {τ es : List Event} {l : Label} (hc : Calls s τ)
    (hf : Follows s τ) (h : Effect s l s' es) : Follows s' (τ ++ es) := by
  -- where another thread moved, the call has sent nothing meanwhile
  have hquiet : ∀ {t d users}, s.threads t = .dispatch d users →
      (∀ e ∈ es, ∀ c, e.call = some c → ∃ t', t' ≠ t ∧ (s.threads t').call = some c) →
      lastSent d.call (τ ++ es) = lastSent d.call τ := by
    intro t d users ht hes
    refine lastSent_append fun e he => sentBy_of_call fun hcall => ?_
    obtain ⟨t', hne, ht'⟩ := hes e he _ hcall
    exact hne (hc.distinct ht' (by rw [ht]; rfl))
  refine ⟨?_, ?_, ?_, ?_⟩
  · intro c u i msg hm
    refine Nat.lt_of_lt_of_le ?_ h.calls.1
    rcases List.mem_append.mp hm with hm | hm
    · exact hf.numbered hm
    · obtain ⟨t, d, users, hth, rfl, -, -⟩ := h.sent hm
      exact hc.below (t := t) (by rw [hth]; rfl)
  · intro t d users ht
    rcases h.threads ht with ⟨ht, -⟩ | ⟨hph, -, -⟩ | ⟨d₀, now, ht₀, hd, -, -⟩
    · exact hf.named ht
    · rw [hph]
      trivial
    · exact dispatchStep_named hd
  · intro t d users ht hq
    rcases h.threads ht with ⟨ht, hes⟩ | ⟨-, hcl, rfl⟩ | ⟨d₀, now, ht₀, hd, hcl, -⟩
    · rw [hquiet ht hes]
      exact hf.fetching ht hq
    · rw [List.append_nil, hcl]
      exact lastSent_eq_none fun u i msg hm => absurd (hf.numbered hm) (Nat.lt_irrefl _)
    · obtain ⟨hq₀, hes⟩ := dispatchStep_fetching hd hq
      rw [hcl, lastSent_append fun e he => hes e he _]
      exact hf.fetching ht₀ hq₀
  · intro t d users i ht hi
    rcases h.threads ht with ⟨ht, hes⟩ | ⟨hph, -, -⟩ | ⟨d₀, now, ht₀, hd, hcl, -⟩
    · rw [hquiet ht hes]
      exact hf.served ht hi
    · rw [hph] at hi
      exact absurd hi List.not_mem_nil
    · rw [hcl]
      exact dispatchStep_served (hf.named ht₀) (fun i hi => hf.served ht₀ hi) hd i hi

theorem Follows.start : Follows {} [] :=
  ⟨fun h => absurd h (by simp), fun h => absurd h (by simp), fun h => absurd h (by simp),
    fun h => absurd h (by simp)⟩

theorem Follows.run {ls : List Label} {s : State} {τ : List Event}
    (hr : run Pending.step {} ls = some (s, τ)) : Follows s τ := by
  have h := run_inv (fun s τ => Base s τ ∧ Calls s τ ∧ Follows s τ) ?_
    ⟨Base.start, Calls.start, Follows.start⟩ hr
  · exact h.2.2
  · rintro s τ l s' es ⟨hb, hc, hf⟩ hs
    have he := step_effect hs
    exact ⟨hb.step hs, Calls.step hb hc he, Follows.step hc hf he⟩

/-! ## 3. What the call's step changes -/

/-- The attempt counter or the due time of `i` in `u`'s tables is another one. -/
def Changed (r r' : Redis) (u i : Bytes) : Prop :=
  (r'.tables u).attempts i ≠ (r.tables u).attempts i ∨
    ∃ due, ¬ ((due, i) ∈ (r'.tables u).schedule ↔ (due, i) ∈ (r.tables u).schedule)

theorem Changed.irrefl {r : Redis} {u i : Bytes} (h : Changed r r u i) : False := by
  rcases h with h | ⟨due, h⟩
  · exact h rfl
  · exact h Iff.rfl

theorem mem_zadd_of_ne {z : SortedSet} {due due' : Int} {i j : Bytes} (h : i ≠ j) :
    (due, i) ∈ z.zadd due' j ↔ (due, i) ∈ z := by
  rw [SortedSet.zadd, (List.perm_orderedInsert entryLe (due', j) _).mem_iff, List.mem_cons,
    SortedSet.zrem, List.mem_filter]
  simp [h]

/-- Behind the fetches, a call changes no entry but that of the id it has just sent. -/
theorem dispatchStep_changed {r r' : Redis} {d : Dispatch} {now : Int} {p : Option Phase}
    {es : List Event} {v j : Bytes} (h : dispatchStep r d now = (p, r', es))
    (hphase : d.phase.fetching = false) (hc : Changed r r' v j) :
    v = cStr d.user ∧ j ∈ d.phase.served := by
  obtain ⟨call, user, includeAll, phase⟩ := d
  dsimp only at hphase ⊢
  cases dispatchMove h with
  | unschedule => exact absurd hphase (by simp [Phase.fetching])
  | @count i nextAttempt nextDue msgs =>
    unfold Changed at hc
    rw [Redis.hsetAttempt, Redis.modify_apply] at hc
    split at hc
    · next hv =>
      refine ⟨hv, List.mem_singleton.mpr ?_⟩
      rcases hc with hc | ⟨due, hc⟩
      · by_contra hij
        exact hc (Function.update_of_ne hij ..)
      · exact absurd Iff.rfl hc
    · rcases hc with hc | ⟨due, hc⟩
      · exact absurd rfl hc
      · exact absurd Iff.rfl hc
  | @reschedule i nextDue msgs =>
    unfold Changed at hc
    rw [Redis.zaddSchedule, Redis.modify_apply] at hc
    split at hc
    · next hv =>
      refine ⟨hv, List.mem_singleton.mpr ?_⟩
      rcases hc with hc | ⟨due, hc⟩
      · exact absurd rfl hc
      · by_contra hij
        exact hc (mem_zadd_of_ne hij)
    · rcases hc with hc | ⟨due, hc⟩
      · exact absurd rfl hc
      · exact absurd Iff.rfl hc
  | _ => exact absurd hc Changed.irrefl

/-- The dispatch part: between one send and the next, a call writes the entries of the
    message it sent. -/
theorem changed_is_last_sent {ls : List Label} {s s' : State} {τ es : List Event}
    (hr : run step {} ls = some (s, τ)) {tid : Nat} {d : Dispatch} {users : List Bytes}
    (hth : s.threads tid = .dispatch d users) {now : Int} {flag : Bool}
    (hs : step s (.move tid now flag) = some (s', es)) {msg : Bytes}
    (hlast : lastSent d.call τ = some msg) {v i : Bytes} (hc : Changed s.redis s'.redis v i) :
    v = cStr d.user ∧ i = extractJsonValue msg (ascii "msg_id") := by
  have hf := Follows.run hr
  have hphase : d.phase.fetching = false := by
    by_contra hne
    have hnone := hf.fetching hth (by simpa using hne)
    rw [hlast] at hnone
    exact absurd hnone (by simp)
  cases hd : dispatchStep s.redis d now with
  | mk p q =>
    obtain ⟨r, es'⟩ := q
    have hredis : s'.redis = r := by
      simp only [step, move, hth, hd] at hs
      cases p with
      | none =>
        simp only [Option.some.injEq, Prod.mk.injEq] at hs
        rw [← hs.1]
        rfl
      | some phase =>
        simp only [Option.some.injEq, Prod.mk.injEq] at hs
        rw [← hs.1]
        rfl
    rw [hredis] at hc
    obtain ⟨hv, hi⟩ := dispatchStep_changed hd hphase hc
    obtain ⟨msg', hmsg', hid⟩ := hf.served hth hi
    rw [hlast, Option.some.injEq] at hmsg'
    exact ⟨hv, by rw [hmsg', hid]⟩

/-! ## 4. The id of a message -/

/-- What goes to the client of a message's text, cut or not: the id is in field 4. -/
theorem encode_messageHead (n : Nat) (hn : n < 2 ^ 64) (h0 : n ≠ 0) (rest : Bytes) :
    encodeJsonToProto 1 (messageHead n ++ rest)
      = putString 1 (getField (messageHead n ++ rest) (ascii "sender")) ++
        (putString 2 (getField (messageHead n ++ rest) (ascii "target")) ++
          (putString 3 (getField (messageHead n ++ rest) (ascii "message")) ++
            (writeUint64 4 n ++ putString 5 (getField (messageHead n ++ rest) (ascii "timestamp"))))) := by
  rw [encodeJsonToProto, if_neg (by simp [messageHead]), if_pos rfl, getField_messageHead,
    parseUint64Safe_toDecimal, Nat.mod_eq_of_lt hn, putUint64, if_neg h0]

/-- **Rescheduling addresses the stored id.** Whatever sender, target, content and time of a
    message are: `extractJsonValue` finds its id in the text, in full or as a dispatch reads it
    back; `storePendingMessage` files it under that id; the client is told that id; and what a
    dispatch changes after passing the text to `sendPacket`, whatever else runs at that time,
    are that id's attempts and due time. -/
theorem rescheduling_addresses_stored_id {msgId : UInt64} (hid : 0 < msgId)
    (sender target message ts : Bytes) :
    let json := buildEnrichedChatBodyWithMsgId msgId.toNat sender target message ts
    (∀ msg ∈ [json, cStr json], extractJsonValue msg (ascii "msg_id") = toDecimal msgId.toNat ∧
      encodeJsonToProto 1 msg = putString 1 (getField msg (ascii "sender")) ++
        (putString 2 (getField msg (ascii "target")) ++ (putString 3 (getField msg (ascii "message")) ++
          (writeUint64 4 msgId.toNat ++ putString 5 (getField msg (ascii "timestamp")))))) ∧
    (∀ {s s' tid user now}, store s tid user msgId json now = some (s', [.stored user msgId json]) →
      (s'.redis.tables user).payload (toDecimal msgId.toNat) = some json ∧
        toDecimal msgId.toNat ∈ (s'.redis.tables user).schedule.members ∧
        (s'.redis.tables user).attempts (toDecimal msgId.toNat) = some 0) ∧
    ∀ {ls s s' τ es tid d users now flag}, run step {} ls = some (s, τ) →
      s.threads tid = .dispatch d users → lastSent d.call τ = some (cStr json) →
      step s (.move tid now flag) = some (s', es) →
      ∀ {v i}, Changed s.redis s'.redis v i → v = cStr d.user ∧ i = toDecimal msgId.toNat := by
  have hmsg : IsMessage msgId (buildEnrichedChatBodyWithMsgId msgId.toNat sender target message ts) :=
    ⟨sender, target, message, ts, rfl⟩
  have h0 : msgId.toNat ≠ 0 := fun h => absurd (UInt64.lt_iff_toNat_lt.mp hid) (by simp [h])
  refine ⟨?_, ?_, ?_⟩
  · intro msg hm
    have hhead : ∃ rest, msg = messageHead msgId.toNat ++ rest := by
      rcases List.mem_cons.mp hm with rfl | hm
      · exact hmsg.head
      · rw [List.mem_singleton.mp hm]
        exact hmsg.head_cStr
    obtain ⟨rest, rfl⟩ := hhead
    exact ⟨extractJsonValue_messageHead _ _, encode_messageHead _ msgId.toNat_lt h0 _⟩
  · intro s s' tid user now h
    unfold store at h
    rw [effectiveId_eq hmsg] at h
    split at h
    · simp at h
    · split at h
      · exact absurd h (by simp)
      · simp only [Option.some.injEq, Prod.mk.injEq, and_true] at h
        rw [← h]
        have hkept := storeScript_new s.redis user
          (buildEnrichedChatBodyWithMsgId msgId.toNat sender target message ts) (now + kRetryDelayMs) msgId
        refine ⟨hkept.1, hkept.2.1, ?_⟩
        show ((s.redis.storeScript user _ _ _).tables user).attempts _ = some 0
        rw [Redis.storeScript_tables, if_pos rfl]
        exact Function.update_self ..
  · intro ls s s' τ es tid d users now flag hr hth hlast hs v i hc
    obtain ⟨hv, hi⟩ := changed_is_last_sent hr hth hs hlast hc
    exact ⟨hv, by rw [hi, hmsg.extract_cStr]; rfl⟩

/-- A content that brings a `msg_id` of its own. -/
def forged : Bytes :=
  buildEnrichedChatBodyWithMsgId 7 (ascii "alice") (ascii "bob") (ascii "x\",\"msg_id\":\"9") (ascii "12:00")

/-- Bob logs in and is sent it again: message 7 is rescheduled. -/
theorem rescheduling_addresses_stored_id_forged :
    extractJsonValue forged (ascii "msg_id") = toDecimal 7 ∧
    ∃ s s' τ es d users, run step {}
      [.privateSend 0 (ascii "alice") (ascii "bob") (ascii "x\",\"msg_id\":\"9") (ascii "12:00") 7,
        .move 0 1000 false, .loginDispatch 1 (ascii "bob"), .move 1 5000 false, .move 1 5000 false,
        .move 1 5000 false, .move 1 5000 false, .move 1 5000 false, .move 1 5000 false] = some (s, τ) ∧
      s.threads 1 = .dispatch d users ∧ step s (.move 1 5000 false) = some (s', es) ∧
      Changed s.redis s'.redis (ascii "bob") (toDecimal 7) ∧
      ∀ v i, Changed s.redis s'.redis v i → v = ascii "bob" ∧ i = toDecimal 7 := by
  let d : Dispatch := ⟨0, ascii "bob", true, .reschedule (toDecimal 7) 8000 []⟩
  have hall := @rescheduling_addresses_stored_id 7 (by decide) (ascii "alice") (ascii "bob")
    (ascii "x\",\"msg_id\":\"9") (ascii "12:00")
  have hrun : (run step {}
      [.privateSend 0 (ascii "alice") (ascii "bob") (ascii "x\",\"msg_id\":\"9") (ascii "12:00") 7,
        .move 0 1000 false, .loginDispatch 1 (ascii "bob"), .move 1 5000 false, .move 1 5000 false,
        .move 1 5000 false, .move 1 5000 false, .move 1 5000 false, .move 1 5000 false]).map
      (fun p => (p.1.threads 1, lastSent 0 p.2, (p.1.redis.tables (ascii "bob")).schedule))
      = some (.dispatch d [], some (cStr forged), [(4000, toDecimal 7)]) := by decide
  obtain ⟨⟨s, τ⟩, hr, hp⟩ := Option.map_eq_some_iff.mp hrun
  simp only [Prod.mk.injEq] at hp
  obtain ⟨hth, hlast, hsched⟩ := hp
  have hstep : step s (.move 1 5000 false) = some (setThread
      { s with redis := s.redis.zaddSchedule (ascii "bob") (toDecimal 7) 8000 } 1
        (.dispatch { d with phase := .serve [] } []), []) := by
    simp only [step, move, hth]
    rfl
  refine ⟨(hall.1 _ List.mem_cons_self).1, s, _, τ, [], d, [], hr, hth, hstep, Or.inr ⟨8000, ?_⟩, ?_⟩
  · show ¬ (_ ∈ ((s.redis.zaddSchedule (ascii "bob") (toDecimal 7) 8000).tables (ascii "bob")).schedule ↔ _)
    rw [Redis.zaddSchedule, Redis.modify_same, hsched]
    dsimp only
    decide
  · intro v i hc
    exact hall.2.2 hr hth hlast hstep hc

end Pending
end EpollChat
