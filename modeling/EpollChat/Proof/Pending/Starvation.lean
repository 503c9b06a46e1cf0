import EpollChat.Lib.Paging
import EpollChat.Proof.Pending.Kept

/-!
# Messages that have used up their attempts

A message that was retried five times stays where it is: it is neither removed nor moved to
the back of the schedule, only skipped. `fetchPendingMessages` takes the first fifty due ids
and the dispatch loop then skips those whose attempts are used up, so what a call sends are
the messages with attempts left *among the first fifty due*.

A call on its own is followed to its return here, phase by phase, for any tables and any
clock.
-/

namespace EpollChat
namespace Pending

open Lib

/-! ## 1. What a call should send, and what it sends -/

/-- The ids due at `now`, in the order of the schedule. -/
def dueIds (t : PendingTables) (now : Int) : List Bytes :=
  (t.schedule.filter fun e => e.1 ≤ now).map (·.2)

/-- The message has attempts left. -/
def hasAttempts (t : PendingTables) (i : Bytes) : Bool :=
  (t.attempts i).getD 0 < kRetryMaxAttempts

/-- The ids a call passed to `sendPacket`, in order. -/
def sentIds (τ : List Event) : List Bytes :=
  τ.filterMap fun
    | .sent _ _ i _ => some i
    | _ => none

/-- The three tables of a user agree: the same ids are in each of them, and the payload under
    an id is a message of that id. -/
structure Agree (t : PendingTables) : Prop where
  nodup : t.schedule.members.Nodup
  scheduled : ∀ i, i ∈ t.schedule.members ↔ (t.payload i).isSome
  counted : ∀ i, (t.attempts i).isSome ↔ (t.payload i).isSome
  message : ∀ {i json}, t.payload i = some json → ∃ id, i = idStr id ∧ IsMessage id json

theorem sentIds_append (τ es : List Event) : sentIds (τ ++ es) = sentIds τ ++ sentIds es :=
  List.filterMap_append ..

theorem rangeIds_due (t : PendingTables) (now : Int) :
    rangeIds t false now = (dueIds t now).take kRetryBatchPerUser := by
  rw [rangeIds, if_neg (by simp), SortedSet.zrangebyscore, List.map_take, dueIds]

/-! ## 2. A call on its own -/

/-- The call returns, whatever the clock shows, and its trace is good. -/
def Returns (r : Redis) (d : Dispatch) (Q : List Event → Prop) : Prop :=
  ∀ clock, ∃ fuel r' τ, dispatchAlone fuel r d clock = some (r', τ) ∧ Q τ

/-- One step of it. -/
theorem Returns.step {r : Redis} {d : Dispatch} {Q : List Event → Prop}
    (h : ∀ now, ∃ q r' es, dispatchStep r d now = (some q, r', es) ∧
      Returns r' { d with phase := q } fun τ => Q (es ++ τ)) : Returns r d Q := by
  intro clock
  obtain ⟨q, r', es, hd, hrest⟩ := h (clock 0)
  obtain ⟨fuel, r'', τ, hrun, hq⟩ := hrest fun k => clock (k + 1)
  refine ⟨fuel + 1, r'', es ++ τ, ?_, hq⟩
  rw [dispatchAlone, hd]
  dsimp only
  rw [hrun]

section

variable {r : Redis} {call : Nat} {user : Bytes}

/-- `fetchPendingMessages` reads the payload of every id it has. -/
theorem returns_fetch {ids : List Bytes} {text : Bytes → Bytes} {Q : List Event → Prop} :
    ∀ (msgs : List Bytes),
      (∀ i ∈ ids, ∃ json, (r.tables (cStr user)).payload i = some json ∧ cStr json = text i) →
      Returns r ⟨call, user, false, .serve (msgs ++ ids.map text)⟩
        (fun τ => Q (ids.map (Event.hget call (cStr user)) ++ τ)) →
      Returns r ⟨call, user, false, .fetch ids msgs⟩ Q := by
  induction ids generalizing Q with
  | nil =>
    intro msgs _ hserve
    refine Returns.step fun now => ⟨.serve msgs, r, [], rfl, ?_⟩
    rw [List.map_nil, List.append_nil] at hserve
    exact hserve
  | cons i ids ih =>
    intro msgs hpay hserve
    obtain ⟨json, hjson, htext⟩ := hpay i List.mem_cons_self
    refine Returns.step fun now => ⟨.fetch ids (msgs ++ [cStr json]), r, [.hget call (cStr user) i], ?_, ?_⟩
    · simp only [dispatchStep, hjson]
    · refine ih _ (fun j hj => hpay j (List.mem_cons_of_mem _ hj)) ?_
      rw [List.append_assoc, htext]
      exact hserve

/-- The dispatch loop sends those that have attempts left. The counter of a message is not
    touched before its own round, as no id comes twice. -/
theorem returns_serve {attempt : Bytes → Int} {text : Bytes → Bytes} :
    ∀ {ids : List Bytes} {r : Redis}, ids.Nodup →
      (∀ i ∈ ids, extractJsonValue (text i) (ascii "msg_id") = i ∧ i ≠ []) →
      (∀ i ∈ ids, ((r.tables (cStr user)).attempts i).getD 0 = attempt i) →
      Returns r ⟨call, user, false, .serve (ids.map text)⟩
        fun τ => sentIds τ = ids.filter fun i => attempt i < kRetryMaxAttempts := by
  intro ids
  induction ids with
  | nil =>
    intro r _ _ _ clock
    exact ⟨1, r, [], rfl, rfl⟩
  | cons i ids ih =>
    intro r hnd hid hatt
    obtain ⟨hni, hnd⟩ := List.nodup_cons.mp hnd
    obtain ⟨hi, hne⟩ := hid i List.mem_cons_self
    have hai := hatt i List.mem_cons_self
    have hid' := fun j hj => hid j (List.mem_cons_of_mem _ hj)
    have hatt' := fun j hj => hatt j (List.mem_cons_of_mem _ hj)
    rw [List.map_cons]
    by_cases hmax : kRetryMaxAttempts ≤ attempt i
    · refine Returns.step fun now => ⟨.serve (ids.map text), r, [], ?_, ?_⟩
      · simp only [dispatchStep, hi, hai, if_neg hne]
        exact if_pos ⟨hmax, trivial⟩
      · rw [List.filter_cons_of_neg (by simpa using hmax)]
        exact ih hnd hid' hatt'
    · -- the message is sent, counted and rescheduled
      rw [List.filter_cons_of_pos (by simpa using hmax)]
      refine Returns.step fun now => ⟨.send (text i) i (attempt i) (ids.map text), r, [], ?_, ?_⟩
      · simp only [dispatchStep, hi, hai, if_neg hne]
        exact if_neg fun h => hmax h.1
      refine Returns.step fun now => ⟨_, r, _, rfl, ?_⟩
      refine Returns.step fun now' => ⟨_, _, _, rfl, ?_⟩
      refine Returns.step fun now' => ⟨_, _, _, rfl, ?_⟩
      have hothers : ∀ j ∈ ids, ((((r.hsetAttempt (cStr user) i (attempt i + 1)).zaddSchedule
          (cStr user) i (now + kRetryDelayMs)).tables (cStr user)).attempts j).getD 0 = attempt j := by
        intro j hj
        have hji : j ≠ i := fun h => hni (h ▸ hj)
        rw [Redis.zaddSchedule, Redis.modify_same, Redis.hsetAttempt, Redis.modify_same]
        dsimp only
        rw [Function.update_of_ne hji]
        exact hatt' j hj
      intro clock
      obtain ⟨fuel, r', τ, hrun, hsent⟩ := ih hnd hid' hothers clock
      refine ⟨fuel, r', τ, hrun, ?_⟩
      exact congrArg (i :: ·) hsent

end

/-- **What a call sends**: the messages with attempts left, of the first fifty due. -/
theorem returns_sent {r : Redis} {user : Bytes} (hne : user ≠ []) (hnul : cStr user = user)
    (ha : Agree (r.tables user)) (call : Nat) (clock : Nat → Int) :
    ∃ fuel r' τ, dispatchAlone fuel r ⟨call, user, false, .range⟩ clock = some (r', τ) ∧
      sentIds τ = ((dueIds (r.tables user) (clock 0)).take kRetryBatchPerUser).filter
        (hasAttempts (r.tables user)) := by
  have hsub : ((dueIds (r.tables user) (clock 0)).take kRetryBatchPerUser).Sublist
      (r.tables user).schedule.members := by
    rw [← rangeIds_due]
    exact rangeIds_sublist _ _ _
  generalize hids : (dueIds (r.tables user) (clock 0)).take kRetryBatchPerUser = ids at hsub ⊢
  have hpay : ∀ i ∈ ids, ∃ json, (r.tables user).payload i = some json :=
    fun i hi => Option.isSome_iff_exists.mp ((ha.scheduled i).mp (hsub.subset hi))
  have hcStr : ids.map cStr = ids := by
    conv_rhs => rw [← List.map_id ids]
    refine List.map_congr_left fun i hi => ?_
    obtain ⟨json, hjson⟩ := hpay i hi
    obtain ⟨id, rfl, -⟩ := ha.message hjson
    exact cStr_toDecimal _
  let text : Bytes → Bytes := fun i => cStr (((r.tables user).payload i).getD [])
  have hserve : Returns r ⟨call, user, false, .serve (ids.map text)⟩
      fun τ => sentIds τ = ids.filter (hasAttempts (r.tables user)) := by
    refine returns_serve (ha.nodup.sublist hsub) ?_ ?_
    · intro i hi
      obtain ⟨json, hjson⟩ := hpay i hi
      obtain ⟨id, rfl, hmsg⟩ := ha.message hjson
      refine ⟨?_, toDecimal_ne_nil _⟩
      show extractJsonValue (cStr (((r.tables user).payload _).getD [])) _ = _
      rw [hjson, Option.getD_some]
      exact hmsg.extract_cStr
    · intro i _
      rw [hnul]
  have hfetch : Returns r ⟨call, user, false, .fetch ids []⟩
      fun τ => sentIds τ = ids.filter (hasAttempts (r.tables user)) := by
    refine @returns_fetch r call user ids text _ [] ?_ ?_
    · intro i hi
      obtain ⟨json, hjson⟩ := hpay i hi
      refine ⟨json, by rw [hnul]; exact hjson, ?_⟩
      show _ = cStr (((r.tables user).payload i).getD [])
      rw [hjson]
      rfl
    · intro clock'
      obtain ⟨fuel, r', τ, hrun, hsent⟩ := hserve clock'
      refine ⟨fuel, r', τ, hrun, ?_⟩
      have hnone : sentIds (ids.map (Event.hget call (cStr user))) = [] := by
        rw [sentIds, List.filterMap_map]
        exact List.filterMap_eq_nil_iff.mpr fun i _ => rfl
      show sentIds (_ ++ τ) = _
      rw [sentIds_append, hnone, hsent]
      rfl
  obtain ⟨fuel, r', τ, hrun, hsent⟩ := hfetch fun k => clock (k + 1)
  refine ⟨fuel + 1, r', τ, ?_, hsent⟩
  rw [dispatchAlone]
  simp only [dispatchStep, if_neg hne, hnul, rangeIds_due, hids, hcStr, hrun, List.nil_append]

/-! ## 3. When it is what it should be -/

/-- **Exhausted messages do not starve fresh ones** exactly if none of them is among the first
    fifty due, or nothing with attempts left is due behind those fifty. A call of `retryLoop`
    for a user whose tables agree, with no other thread running meanwhile, returns; and what it
    sent are the first fifty of the due messages with attempts left if and only if that holds. -/
theorem fresh_messages_sent_iff {r : Redis} {user : Bytes} (hne : user ≠ []) (hnul : cStr user = user)
    (ha : Agree (r.tables user)) (call : Nat) (clock : Nat → Int) :
    ∃ fuel r' τ, dispatchAlone fuel r ⟨call, user, false, .range⟩ clock = some (r', τ) ∧
      (sentIds τ = ((dueIds (r.tables user) (clock 0)).filter (hasAttempts (r.tables user))).take
          kRetryBatchPerUser ↔
        (∀ i ∈ (dueIds (r.tables user) (clock 0)).take kRetryBatchPerUser,
          hasAttempts (r.tables user) i = true) ∨
        ∀ i ∈ (dueIds (r.tables user) (clock 0)).drop kRetryBatchPerUser,
          hasAttempts (r.tables user) i = false) := by
  obtain ⟨fuel, r', τ, hrun, hsent⟩ := returns_sent hne hnul ha call clock
  exact ⟨fuel, r', τ, hrun, by rw [hsent]; exact filter_take_eq_iff _⟩

/-- Tables with the messages 1 to `n`, due one after the other. -/
def numbered (n : Nat) (attempt : Nat → Int) : PendingTables :=
  let ids := (List.range n).map fun k => toDecimal (k + 1)
  { payload := fun i => if ids.contains i then
        some (buildEnrichedChatBodyWithMsgId (decimalValue i) (ascii "alice") (ascii "bob") (ascii "hi") [])
      else none
    schedule := (List.range n).map fun k : Nat => (Int.ofNat k, toDecimal (k + 1))
    attempts := fun i => if ids.contains i then some (attempt (decimalValue i)) else none }

theorem agree_numbered {n : Nat} (hn : n < 2 ^ 64) (attempt : Nat → Int) : Agree (numbered n attempt) := by
  have hmem : (numbered n attempt).schedule.members = (List.range n).map fun k => toDecimal (k + 1) := by
    show ((List.range n).map _).map _ = _
    rw [List.map_map]
    rfl
  refine ⟨?_, fun i => ?_, fun i => ?_, fun {i json} h => ?_⟩
  · rw [hmem]
    exact List.nodup_range.map fun a b h => Nat.succ.inj (toDecimal_inj h)
  · rw [hmem]
    simp only [numbered]
    split <;> simp_all
  · simp only [numbered]
    split <;> rfl
  · simp only [numbered] at h
    split at h
    · next hi =>
      obtain ⟨k, hk, rfl⟩ := List.mem_map.mp (List.contains_iff_mem.mp hi)
      rw [decimalValue_toDecimal, Option.some.injEq] at h
      have hlt : k + 1 < 2 ^ 64 := by
        have := List.mem_range.mp hk
        omega
      have hnat : (UInt64.ofNat (k + 1)).toNat = k + 1 := by
        rw [UInt64.toNat_ofNat']
        exact Nat.mod_eq_of_lt hlt
      exact ⟨UInt64.ofNat (k + 1), by rw [idStr, hnat], _, _, _, _, by rw [hnat]; exact h.symm⟩
    · exact absurd h (by simp)

/-- The tables of bob alone. -/
def forBob (t : PendingTables) : Redis := { tables := fun u => if u = ascii "bob" then t else {} }

theorem agree_forBob {t : PendingTables} (h : Agree t) : Agree ((forBob t).tables (ascii "bob")) := by
  show Agree (if ascii "bob" = ascii "bob" then t else {})
  rw [if_pos rfl]
  exact h

/-- Two messages, the second of which has used up its attempts: the first is sent. -/
theorem fresh_messages_sent_two : ∃ fuel r' τ, dispatchAlone fuel
    (forBob (numbered 2 fun id => if id = 1 then 0 else 5)) ⟨0, ascii "bob", false, .range⟩ (fun _ => 9)
      = some (r', τ) ∧ sentIds τ = [toDecimal 1] := by
  have ha : Agree ((forBob (numbered 2 fun id => if id = 1 then 0 else 5)).tables (ascii "bob")) :=
    agree_forBob (agree_numbered (by decide) _)
  obtain ⟨fuel, r', τ, hrun, hiff⟩ := fresh_messages_sent_iff (by decide) (by decide) ha 0 fun _ => 9
  exact ⟨fuel, r', τ, hrun, (hiff.mpr (by decide)).trans (by decide)⟩

/-- Fifty messages that have used up their attempts are due, and a fresh one behind them: it is
    not sent. -/
theorem fresh_message_starved : ∃ r user clock fuel r' τ, user ≠ [] ∧ cStr user = user ∧
    Agree (r.tables user) ∧
    dispatchAlone fuel r ⟨0, user, false, .range⟩ clock = some (r', τ) ∧
    sentIds τ ≠ ((dueIds (r.tables user) (clock 0)).filter (hasAttempts (r.tables user))).take
      kRetryBatchPerUser := by
  have ha : Agree ((forBob (numbered 51 fun id => if id = 51 then 0 else 5)).tables (ascii "bob")) :=
    agree_forBob (agree_numbered (by decide) _)
  obtain ⟨fuel, r', τ, hrun, hsent⟩ := returns_sent (by decide) (by decide) ha 0 fun _ => 99
  refine ⟨forBob (numbered 51 fun id => if id = 51 then 0 else 5), ascii "bob", fun _ => 99, fuel, r', τ, by decide, by decide, ha, hrun, ?_⟩
  rw [hsent]
  decide

end Pending
end EpollChat
