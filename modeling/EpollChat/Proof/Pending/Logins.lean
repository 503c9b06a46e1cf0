import EpollChat.Proof.Pending.Starvation

/-!
# A user who logs in again and again gets everything

A login dispatches the first fifty messages of the schedule, whether they are due or not, and
moves each of them behind everything that was scheduled before: to three seconds from now, when
nothing older is scheduled for later than three seconds after it was put there
(`schedule_resent`). So the next login starts where this one stopped, and the messages take turns:
`logins_take_turns` says that the first sends are one of each message, in the order of the
schedule. The same calls by `retryLoop` do not have this property (`fresh_message_starved`).
-/

namespace EpollChat
namespace Pending

/-! ## 1. To the back of the schedule -/

/-- What counting and rescheduling a message does to the tables. -/
def resent (t : PendingTables) (id : Bytes) (attempt due : Int) : PendingTables :=
  { t with
    attempts := Function.update t.attempts id (some attempt)
    schedule := t.schedule.zadd due id }

theorem mem_members_resent {t : PendingTables} {id : Bytes} {attempt due : Int}
    (hid : id ∈ t.schedule.members) (i : Bytes) :
    i ∈ (resent t id attempt due).schedule.members ↔ i ∈ t.schedule.members := by
  rw [resent, SortedSet.mem_members_zadd]
  constructor
  · rintro (rfl | hi)
    · exact hid
    · exact hi
  · exact Or.inr

theorem Agree.resent {t : PendingTables} {id : Bytes} {attempt due : Int} (ha : Agree t)
    (hid : id ∈ t.schedule.members) : Agree (resent t id attempt due) := by
  refine ⟨SortedSet.nodup_zadd ha.nodup _ _, fun i => ?_, fun i => ?_, ha.message⟩
  · rw [mem_members_resent hid]
    exact ha.scheduled i
  · show (Function.update t.attempts id (some attempt) i).isSome ↔ (t.payload i).isSome
    by_cases hi : i = id
    · subst hi
      rw [Function.update_self]
      exact ⟨fun _ => (ha.scheduled i).mp hid, fun _ => rfl⟩
    · rw [Function.update_of_ne hi]
      exact ha.counted i

/-- An entry is put behind all those with a smaller score. -/
theorem orderedInsert_behind {e : Int × Bytes} {z : SortedSet} : ∀ {U : SortedSet},
    (∀ e' ∈ U, e'.1 < e.1) → (U ++ z).orderedInsert entryLe e = U ++ z.orderedInsert entryLe e := by
  intro U
  induction U with
  | nil => exact fun _ => rfl
  | cons a U ih =>
    intro h
    have hlt := h a List.mem_cons_self
    have hnot : ¬ entryLe e a := by
      rintro (h' | ⟨h', -⟩)
      · omega
      · omega
    rw [List.cons_append, List.orderedInsert_of_not_le (h := hnot),
      ih fun e' he' => h e' (List.mem_cons_of_mem _ he')]
    rfl

/-- **A message that is sent goes behind everything older.** -/
theorem schedule_resent {t : PendingTables} (id : Bytes) (attempt due : Int) {U S : SortedSet}
    (hs : t.schedule = U ++ S) (hU : ∀ e ∈ U, e.1 < due) :
    ∃ S', (resent t id attempt due).schedule = U.zrem id ++ S' := by
  refine ⟨(SortedSet.zrem S id).orderedInsert entryLe (due, id), ?_⟩
  show (SortedSet.zrem t.schedule id).orderedInsert entryLe (due, id) = _
  rw [hs, SortedSet.zrem, List.filter_append]
  exact orderedInsert_behind fun e he => hU e (List.mem_filter.mp he).1

/-! ## 2. A login on its own -/

/-- The call returns, if the clock never shows less than `c₀`, and leaves things as `Q` says. -/
def Completes (c₀ : Int) (r : Redis) (d : Dispatch) (Q : Redis → List Event → Prop) : Prop :=
  ∀ clock : Nat → Int, (∀ k, c₀ ≤ clock k) →
    ∃ fuel r' τ, dispatchAlone fuel r d clock = some (r', τ) ∧ Q r' τ

theorem Completes.step {c₀ : Int} {r : Redis} {d : Dispatch} {Q : Redis → List Event → Prop}
    (h : ∀ now, c₀ ≤ now → ∃ q r' es, dispatchStep r d now = (some q, r', es) ∧
      Completes c₀ r' { d with phase := q } fun r'' τ => Q r'' (es ++ τ)) : Completes c₀ r d Q := by
  intro clock hclock
  obtain ⟨q, r', es, hd, hrest⟩ := h (clock 0) (hclock 0)
  obtain ⟨fuel, r'', τ, hrun, hq⟩ := hrest (fun k => clock (k + 1)) fun k => hclock (k + 1)
  refine ⟨fuel + 1, r'', es ++ τ, ?_, hq⟩
  rw [dispatchAlone, hd]
  dsimp only
  rw [hrun]

theorem Completes.mono {c₀ : Int} {r : Redis} {d : Dispatch} {P Q : Redis → List Event → Prop}
    (h : Completes c₀ r d P) (hPQ : ∀ {r' τ}, P r' τ → Q r' τ) : Completes c₀ r d Q := by
  intro clock hclock
  obtain ⟨fuel, r', τ, hrun, hp⟩ := h clock hclock
  exact ⟨fuel, r', τ, hrun, hPQ hp⟩

section

variable {c₀ : Int} {call : Nat} {user : Bytes}

/-- `fetchPendingMessages` reads the payload of every id it has. -/
theorem completes_fetch {r : Redis} {ids : List Bytes} {text : Bytes → Bytes}
    {Q : Redis → List Event → Prop} : ∀ (msgs : List Bytes),
      (∀ i ∈ ids, ∃ json, (r.tables (cStr user)).payload i = some json ∧ cStr json = text i) →
      Completes c₀ r ⟨call, user, true, .serve (msgs ++ ids.map text)⟩
        (fun r' τ => Q r' (ids.map (Event.hget call (cStr user)) ++ τ)) →
      Completes c₀ r ⟨call, user, true, .fetch ids msgs⟩ Q := by
  induction ids generalizing Q with
  | nil =>
    intro msgs _ hserve
    refine Completes.step fun now _ => ⟨.serve msgs, r, [], rfl, ?_⟩
    rw [List.map_nil, List.append_nil] at hserve
    exact hserve
  | cons i ids ih =>
    intro msgs hpay hserve
    obtain ⟨json, hjson, htext⟩ := hpay i List.mem_cons_self
    refine Completes.step fun now _ =>
      ⟨.fetch ids (msgs ++ [cStr json]), r, [.hget call (cStr user) i], ?_, ?_⟩
    · simp only [dispatchStep, hjson]
    · refine ih _ (fun j hj => hpay j (List.mem_cons_of_mem _ hj)) ?_
      rw [List.append_assoc, htext]
      exact hserve

/-- What a login has done with the messages `ids`: they have been sent, and are behind everything
    older. -/
structure Served (c₀ : Int) (ids : List Bytes) (t t' : PendingTables) (τ : List Event) : Prop where
  sent : sentIds τ = ids
  agree : Agree t'
  behind : ∀ U S, t.schedule = U ++ S → (∀ e ∈ U, e.1 < c₀ + kRetryDelayMs) →
    ∃ S', t'.schedule = (U.filter fun e => e.2 ∉ ids) ++ S'

theorem Served.nil {t : PendingTables} (ha : Agree t) : Served c₀ [] t t [] :=
  ⟨rfl, ha, fun U S hs _ => ⟨S, by simpa using hs⟩⟩

/-- One message more. -/
theorem Served.cons {t t' : PendingTables} {τ : List Event} {i msg : Bytes} {ids : List Bytes}
    {attempt now : Int} (hnow : c₀ ≤ now)
    (h : Served c₀ ids (resent t i attempt (now + kRetryDelayMs)) t' τ) :
    Served c₀ (i :: ids) t t' (.sent call user i msg :: τ) := by
  refine ⟨congrArg (i :: ·) h.sent, h.agree, fun U S hs hU => ?_⟩
  obtain ⟨S₁, hS₁⟩ := schedule_resent i attempt (now + kRetryDelayMs) hs
    fun e he => (hU e he).trans_le (by omega)
  obtain ⟨S₂, hS₂⟩ := h.behind _ S₁ hS₁ fun e he => hU e (List.mem_filter.mp he).1
  refine ⟨S₂, hS₂.trans ?_⟩
  rw [SortedSet.zrem, List.filter_filter]
  congr 1
  refine List.filter_congr fun e _ => ?_
  simp only [List.mem_cons, not_or, Bool.decide_and, Bool.and_comm]

/-- The dispatch loop sends them all: a login asks neither for the time nor for the attempts. -/
theorem completes_serve {text : Bytes → Bytes} : ∀ {ids : List Bytes} {r : Redis},
    (∀ i ∈ ids, extractJsonValue (text i) (ascii "msg_id") = i ∧ i ≠ []) →
    (∀ i ∈ ids, i ∈ (r.tables (cStr user)).schedule.members) → Agree (r.tables (cStr user)) →
    Completes c₀ r ⟨call, user, true, .serve (ids.map text)⟩
      fun r' τ => Served c₀ ids (r.tables (cStr user)) (r'.tables (cStr user)) τ := by
  intro ids
  induction ids with
  | nil =>
    intro r _ _ ha clock _
    exact ⟨1, r, [], rfl, Served.nil ha⟩
  | cons i ids ih =>
    intro r hid hmem ha
    obtain ⟨hi, hne⟩ := hid i List.mem_cons_self
    have hi_mem := hmem i List.mem_cons_self
    generalize hatt : ((r.tables (cStr user)).attempts i).getD 0 = attempt
    rw [List.map_cons]
    refine Completes.step fun now₀ _ => ⟨.send (text i) i attempt (ids.map text), r, [], ?_, ?_⟩
    · simp only [dispatchStep, hi, hatt, if_neg hne]
      exact if_neg fun h => absurd h.2 (by simp)
    refine Completes.step fun now hnow => ⟨_, r, _, rfl, ?_⟩
    refine Completes.step fun _ _ => ⟨_, _, _, rfl, ?_⟩
    refine Completes.step fun _ _ => ⟨_, _, _, rfl, ?_⟩
    have htables : ((r.hsetAttempt (cStr user) i attempt).zaddSchedule (cStr user) i
        (now + kRetryDelayMs)).tables (cStr user) =
          resent (r.tables (cStr user)) i attempt (now + kRetryDelayMs) := by
      rw [Redis.zaddSchedule, Redis.modify_same, Redis.hsetAttempt, Redis.modify_same]
      rfl
    refine (ih (fun j hj => hid j (List.mem_cons_of_mem _ hj)) (fun j hj => ?_) ?_).mono
      fun {r' τ} hserved => ?_
    · show j ∈ (((r.hsetAttempt (cStr user) i attempt).zaddSchedule (cStr user) i
        (now + kRetryDelayMs)).tables (cStr user)).schedule.members
      rw [htables, mem_members_resent hi_mem]
      exact hmem j (List.mem_cons_of_mem _ hj)
    · show Agree (((r.hsetAttempt (cStr user) i attempt).zaddSchedule (cStr user) i
        (now + kRetryDelayMs)).tables (cStr user))
      rw [htables]
      exact ha.resent hi_mem
    · have h := hserved
      change Served c₀ ids (((r.hsetAttempt (cStr user) i attempt).zaddSchedule (cStr user) i
        (now + kRetryDelayMs)).tables (cStr user)) _ _ at h
      rw [htables] at h
      exact h.cons hnow

variable (call) in
/-- **What a login sends**: the first fifty messages of the schedule. -/
theorem login_serves {r : Redis} (hne : user ≠ []) (hnul : cStr user = user)
    (ha : Agree (r.tables user)) :
    Completes c₀ r ⟨call, user, true, .range⟩ fun r' τ =>
      Served c₀ ((r.tables user).schedule.members.take kRetryBatchPerUser) (r.tables user)
        (r'.tables user) τ := by
  have hrange : rangeIds (r.tables user) true = fun _ =>
      (r.tables user).schedule.members.take kRetryBatchPerUser := by
    funext now
    rw [rangeIds, if_pos rfl, SortedSet.zrange, List.map_take, SortedSet.members]
  generalize hids : (r.tables user).schedule.members.take kRetryBatchPerUser = ids at hrange ⊢
  have hmem : ∀ i ∈ ids, i ∈ (r.tables user).schedule.members :=
    fun i hi => List.mem_of_mem_take (hids ▸ hi)
  have hpay : ∀ i ∈ ids, ∃ json, (r.tables user).payload i = some json :=
    fun i hi => Option.isSome_iff_exists.mp ((ha.scheduled i).mp (hmem i hi))
  have hcStr : ids.map cStr = ids := by
    conv_rhs => rw [← List.map_id ids]
    refine List.map_congr_left fun i hi => ?_
    obtain ⟨json, hjson⟩ := hpay i hi
    obtain ⟨id, rfl, -⟩ := ha.message hjson
    exact cStr_toDecimal _
  let text : Bytes → Bytes := fun i => cStr (((r.tables user).payload i).getD [])
  have hserve : Completes c₀ r ⟨call, user, true, .serve (ids.map text)⟩
      fun r' τ => Served c₀ ids (r.tables (cStr user)) (r'.tables (cStr user)) τ := by
    refine completes_serve (fun i hi => ?_) (by rw [hnul]; exact hmem) (by rw [hnul]; exact ha)
    obtain ⟨json, hjson⟩ := hpay i hi
    obtain ⟨id, rfl, hmsg⟩ := ha.message hjson
    refine ⟨?_, toDecimal_ne_nil _⟩
    show extractJsonValue (cStr (((r.tables user).payload _).getD [])) _ = _
    rw [hjson, Option.getD_some]
    exact hmsg.extract_cStr
  have hnone : sentIds (ids.map (Event.hget call (cStr user))) = [] := by
    rw [sentIds, List.filterMap_map]
    exact List.filterMap_eq_nil_iff.mpr fun i _ => rfl
  refine Completes.step fun now _ => ⟨.fetch ids [], r, [], ?_, ?_⟩
  · simp only [dispatchStep, if_neg hne, hnul, hrange, hcStr]
  refine @completes_fetch c₀ call user r ids text _ [] (fun i hi => ?_) (hserve.mono fun {r' τ} h => ?_)
  · obtain ⟨json, hjson⟩ := hpay i hi
    refine ⟨json, by rw [hnul]; exact hjson, ?_⟩
    show _ = cStr (((r.tables user).payload i).getD [])
    rw [hjson]
    rfl
  · rw [hnul] at h hnone
    refine ⟨?_, h.agree, h.behind⟩
    rw [List.nil_append, hnul, sentIds_append, hnone, List.nil_append]
    exact h.sent

end

/-! ## 3. Login after login -/

/-- Logins of one user, one after the other, each with its own clock. -/
inductive Logins (user : Bytes) : Redis → List (Nat → Int) → Redis → List Event → Prop where
  | nil (r : Redis) : Logins user r [] r []
  | cons {r r' r'' : Redis} {clock : Nat → Int} {clocks : List (Nat → Int)} {τ τ' : List Event}
      {call fuel : Nat} (h : dispatchAlone fuel r ⟨call, user, true, .range⟩ clock = some (r', τ))
      (hrest : Logins user r' clocks r'' τ') : Logins user r (clock :: clocks) r'' (τ ++ τ')

/-- The ids of the messages that have not had their turn are those that follow the first fifty. -/
theorem filter_take_members {U S : SortedSet} (hnd : (SortedSet.members (U ++ S)).Nodup) (n : Nat) :
    (U.filter fun e => e.2 ∉ (SortedSet.members (U ++ S)).take n) = U.drop n := by
  have htaken : ∀ e ∈ U.take n, e.2 ∈ (SortedSet.members (U ++ S)).take n := by
    intro e he
    rw [SortedSet.members, ← List.map_take, List.take_append]
    exact List.mem_map_of_mem (List.mem_append_left _ he)
  have hleft : ∀ e ∈ U.drop n, e.2 ∉ (SortedSet.members (U ++ S)).take n := by
    intro e he hmem
    refine List.disjoint_take_drop hnd (Nat.le_refl n) hmem ?_
    rw [SortedSet.members, ← List.map_drop, List.drop_append]
    exact List.mem_map_of_mem (List.mem_append_left _ he)
  conv_lhs => rw [← List.take_append_drop n U, List.filter_append]
  rw [List.take_append_drop, List.filter_eq_nil_iff.mpr fun e he => by simpa using htaken e he,
    List.filter_eq_self.mpr fun e he => by simpa using hleft e he, List.nil_append]

/-- The first of what two calls send, if the second goes on where the first has stopped. -/
theorem take_two_calls {U S : SortedSet} {s' : List Bytes} {n m : Nat}
    (h : s'.take (U.drop n).length = (SortedSet.members (U.drop n)).take m) :
    ((SortedSet.members (U ++ S)).take n ++ s').take U.length =
      (SortedSet.members U).take (n + m) := by
  have hmembers : SortedSet.members (U ++ S) = SortedSet.members U ++ SortedSet.members S :=
    List.map_append
  have hlen : (SortedSet.members U).length = U.length := List.length_map ..
  rcases Nat.le_total n U.length with hn | hn
  · have hids : (SortedSet.members (U ++ S)).take n = (SortedSet.members U).take n := by
      rw [hmembers, List.take_append_of_le_length (by rw [hlen]; exact hn)]
    have hids_len : ((SortedSet.members U).take n).length = n := by
      rw [List.length_take, hlen]
      omega
    rw [List.length_drop] at h
    rw [hids, List.take_append, hids_len, h, List.take_of_length_le (by omega), List.take_add]
    congr 2
    exact List.map_drop ..
  · rw [List.take_append_of_le_length, List.take_take, Nat.min_eq_left hn, hmembers,
      List.take_append_of_le_length (Nat.le_of_eq hlen.symm), List.take_of_length_le (Nat.le_of_eq hlen),
      List.take_of_length_le (by omega)]
    rw [List.length_take, hmembers, List.length_append, hlen]
    omega

/-- The messages of `U` wait for their turn, and nothing older is scheduled. -/
theorem logins_serve {user : Bytes} (hne : user ≠ []) (hnul : cStr user = user) {c₀ : Int} :
    ∀ {clocks : List (Nat → Int)} {r : Redis} {U S : SortedSet}, (∀ clock ∈ clocks, ∀ k, c₀ ≤ clock k) →
      Agree (r.tables user) → (r.tables user).schedule = U ++ S →
      (∀ e ∈ U, e.1 < c₀ + kRetryDelayMs) →
      ∃ r' τ, Logins user r clocks r' τ ∧
        (sentIds τ).take U.length = U.members.take (kRetryBatchPerUser * clocks.length) := by
  intro clocks
  induction clocks with
  | nil =>
    intro r U S _ _ _ _
    exact ⟨r, [], .nil r, by simp [sentIds]⟩
  | cons clock clocks ih =>
    intro r U S hclocks ha hs hU
    obtain ⟨fuel, r₁, τ, hrun, hserved⟩ := login_serves 0 hne hnul ha clock
      (hclocks clock List.mem_cons_self)
    obtain ⟨S₁, hs₁⟩ := hserved.behind U S hs hU
    rw [hs, filter_take_members (hs ▸ ha.nodup)] at hs₁
    obtain ⟨r₂, τ', hlogins, hsent⟩ := ih (fun c hc => hclocks c (List.mem_cons_of_mem _ hc))
      hserved.agree hs₁ fun e he => hU e (List.mem_of_mem_drop he)
    refine ⟨r₂, τ ++ τ', .cons hrun hlogins, ?_⟩
    rw [sentIds_append, hserved.sent, hs, List.length_cons, Nat.mul_add_one, Nat.add_comm]
    exact take_two_calls hsent

end Pending
end EpollChat
