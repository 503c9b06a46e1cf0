import EpollChat.Proof.Pending.NoResend

/-!
# How often a message is retried

`retryLoop` reads a message's attempt counter, passes the message to `sendPacket`, and then
sets the counter to what it read plus one. A login dispatch of the same user reads the same
counter and later sets it to what it read. Nothing ties the write to the read, so a retry
that was counted in between is forgotten; and an acknowledgement deletes the counter, which
then reads as 0, while `retryLoop` may still have the message in hand.

`CountKept` excludes exactly these two steps. Without them the counter accounts for every
retry so far, and the limit of five holds.
-/

namespace EpollChat
namespace Pending

open Lib Machine

/-! ## 1. What is counted, and what must not happen -/

/-- The call is about to pass the text `m` to `sendPacket`. -/
def Phase.sends (m : Bytes) : Phase → Nat
  | .send msg _ _ _ => if msg = m then 1 else 0
  | _ => 0

/-- Whether the step is `retryLoop`'s passing `m` to `sendPacket`. -/
def retrySend (m : Bytes) (s : State) : Label → Nat
  | .move tid _ _ =>
      match s.threads tid with
      | .dispatch d _ => if d.includeAll = false then d.phase.sends m else 0
      | _ => 0
  | _ => 0

/-- The messages a call has fetched and not looked at. -/
def Phase.waiting : Phase → List Bytes
  | .send _ _ _ msgs => msgs
  | p => p.msgs

/-- Where `retryLoop`'s dispatch for `u` is; `.range` when there is none. -/
def Pc.retryPhase (u : Bytes) : Pc → Phase
  | .dispatch d _ => if d.includeAll = false ∧ cStr d.user = u then d.phase else .range
  | _ => .range

/-- The counter a login dispatch is about to set, and the value. -/
def Pc.writeBack : Pc → Option (Bytes × Bytes × Int)
  | .dispatch ⟨_, user, true, .count id n _ _⟩ _ => some (cStr user, id, n)
  | _ => none

/-- The attempt counter as `getPendingAttempt` reads it. -/
def attemptOf (r : Redis) (u i : Bytes) : Int := ((r.tables u).attempts i).getD 0

/-- No login dispatch sets a counter back, and no message is acknowledged that has used up
    its attempts and waits in the hands of the thread `retry`. -/
def CountKept (retry : Nat) (s : State) : Label → Prop
  | .move tid _ _ => ∀ w ∈ (s.threads tid).writeBack, attemptOf s.redis w.1 w.2.1 ≤ w.2.2
  | .ackPending _ user ids => ∀ msg ∈ ((s.threads retry).retryPhase user).waiting,
      extractJsonValue msg (ascii "msg_id") ∈ ackedIds ids →
        attemptOf s.redis user (extractJsonValue msg (ascii "msg_id")) < kRetryMaxAttempts
  | _ => True

instance (retry : Nat) (s : State) : DecidablePred (CountKept retry s)
  | .move _ _ _ => inferInstanceAs (Decidable (∀ _ ∈ _, _))
  | .ackPending _ _ _ => inferInstanceAs (Decidable (∀ _ ∈ _, _ → _))
  | .privateSend .. | .loginDispatch .. | .retryScan .. => isTrue trivial

/-! ## 2. One thread retries -/

/-- `retryLoop` runs on the thread `retry`: the server starts `m_retryThread` once. -/
def RetriesOn (retry : Nat) : Label → Prop
  | .retryScan tid => tid = retry
  | _ => True

instance (retry : Nat) : DecidablePred (RetriesOn retry)
  | .retryScan _ => inferInstanceAs (Decidable (_ = _))
  | .privateSend .. | .loginDispatch .. | .ackPending .. | .move .. => isTrue trivial

/-- Only the thread `retry` has users to go on with. -/
def Pc.Role (mine : Prop) : Pc → Prop
  | .scan users => users = [] ∨ mine
  | .dispatch d users => if d.includeAll then users = [] else mine
  | _ => True

def Roles (retry : Nat) (s : State) : Prop := ∀ t, (s.threads t).Role (t = retry)

theorem Roles.set {retry tid n : Nat} {s : State} {r : Redis} {ids : List UInt64} {pc : Pc}
    (hi : Roles retry s) (hpc : pc.Role (tid = retry)) :
    Roles retry (setThread { s with redis := r, nextCall := n, storedIds := ids } tid pc) := by
  intro t
  by_cases ht : t = tid
  · subst ht
    rw [setThread_same]
    exact hpc
  · rw [setThread_other ht]
    exact hi t

theorem Roles.move {retry tid : Nat} {s s' : State} {now : Int} {flag : Bool} {es : List Event}
    (hi : Roles retry s) (h : move s tid now flag = some (s', es)) : Roles retry s' := by
  have hpc := hi tid
  unfold Pending.move at h
  cases hth : s.threads tid with
  | idle => rw [hth] at h; exact absurd h (by simp)
  | store u id json =>
    rw [hth] at h
    simp only [store] at h
    split at h
    · simp only [Option.some.injEq, Prod.mk.injEq] at h
      obtain ⟨rfl, -⟩ := h
      exact hi.set trivial
    · split at h
      · exact absurd h (by simp)
      · simp only [Option.some.injEq, Prod.mk.injEq] at h
        obtain ⟨rfl, -⟩ := h
        exact hi.set trivial
  | ackSender u id json =>
    rw [hth] at h
    simp only [Option.some.injEq, Prod.mk.injEq] at h
    obtain ⟨rfl, -⟩ := h
    exact hi.set trivial
  | sendTarget u id json =>
    rw [hth] at h
    simp only [Option.some.injEq, Prod.mk.injEq] at h
    obtain ⟨rfl, -⟩ := h
    exact hi.set trivial
  | scan users =>
    rw [hth] at h hpc
    cases users with
    | nil =>
      simp only [Option.some.injEq, Prod.mk.injEq] at h
      obtain ⟨rfl, -⟩ := h
      exact hi.set trivial
    | cons u us =>
      have hmine : tid = retry := hpc.resolve_left (by simp)
      dsimp only at h
      split at h
      · simp only [Option.some.injEq, Prod.mk.injEq] at h
        obtain ⟨rfl, -⟩ := h
        exact hi.set hmine
      · simp only [Option.some.injEq, Prod.mk.injEq] at h
        obtain ⟨rfl, -⟩ := h
        exact hi.set (Or.inr hmine)
  | dispatch d users =>
    rw [hth] at h hpc
    dsimp only at h
    cases hd : dispatchStep s.redis d now with
    | mk p q =>
      obtain ⟨r, es'⟩ := q
      rw [hd] at h
      cases p with
      | some phase =>
        simp only [Option.some.injEq, Prod.mk.injEq] at h
        obtain ⟨rfl, -⟩ := h
        exact hi.set hpc
      | none =>
        simp only [Option.some.injEq, Prod.mk.injEq] at h
        obtain ⟨rfl, -⟩ := h
        refine hi.set ?_
        simp only [Pc.Role] at hpc ⊢
        split at hpc
        · exact Or.inl hpc
        · exact Or.inr hpc

theorem Roles.step {retry : Nat} {s s' : State} {l : Label} {es : List Event}
    (hone : RetriesOn retry l) (hi : Roles retry s)
    (h : step s l = some (s', es)) : Roles retry s' := by
  cases l with
  | privateSend tid sender target content ts id =>
    simp only [Pending.step] at h
    split at h
    · split at h
      · exact absurd h (by simp)
      · simp only [Option.some.injEq, Prod.mk.injEq] at h
        obtain ⟨rfl, -⟩ := h
        exact hi.set trivial
    · exact absurd h (by simp)
  | loginDispatch tid user =>
    simp only [Pending.step] at h
    split at h
    · simp only [Option.some.injEq, Prod.mk.injEq] at h
      obtain ⟨rfl, -⟩ := h
      exact hi.set rfl
    · exact absurd h (by simp)
  | retryScan tid =>
    simp only [Pending.step] at h
    split at h
    · simp only [Option.some.injEq, Prod.mk.injEq] at h
      obtain ⟨rfl, -⟩ := h
      exact hi.set (Or.inr hone)
    · exact absurd h (by simp)
  | ackPending tid user ids =>
    simp only [Pending.step] at h
    split at h
    · split at h
      · simp only [Option.some.injEq, Prod.mk.injEq] at h
        obtain ⟨rfl, -⟩ := h
        exact hi
      · simp only [Option.some.injEq, Prod.mk.injEq] at h
        obtain ⟨rfl, -⟩ := h
        exact hi
    · exact absurd h (by simp)
  | move tid now flag => exact hi.move h

/-! ## 3. What the retrying call has in hand -/

/-- The id whose send is over and whose counter or due time is still to be written. -/
def Phase.served : Phase → List Bytes
  | .count id _ _ _ => [id]
  | .reschedule id _ _ => [id]
  | _ => []

/-- How often the call still has to do with the message: as an id to fetch, as a text to
    serve, or as the one just sent. -/
def Phase.weight (i m : Bytes) (p : Phase) : Nat :=
  p.todo.count i + p.msgs.count m + p.served.count i

/-- The attempts that are accounted for: in the counter, or in the local variable that is
    about to overwrite it. -/
def Phase.spent (i : Bytes) (counter : Int) : Phase → Int
  | .send _ id attempt _ => if id = i then attempt else counter
  | .count id nextAttempt _ _ => if id = i then nextAttempt else counter
  | _ => counter

/-- The call is about to send the message of id `i`. -/
def Phase.sending (i : Bytes) : Phase → Nat
  | .send _ id _ _ => if id = i then 1 else 0
  | _ => 0

/-- `k` retries are within the limit. While the message is there, the attempts accounted for
    are at least `k`; once it has been acknowledged, what is left is what the call holds. -/
structure Within (i m : Bytes) (t : PendingTables) (k : Nat) (p : Phase) : Prop where
  live : t.payload i ≠ none →
    (k : Int) ≤ p.spent i ((t.attempts i).getD 0) ∧ k + p.sending i ≤ 5
  gone : t.payload i = none → k + p.msgs.count m ≤ 5

theorem Phase.spent_mono {i : Bytes} {a b : Int} (p : Phase) (h : a ≤ b) :
    p.spent i a ≤ p.spent i b := by
  cases p with
  | send msg id attempt msgs =>
    simp only [Phase.spent]
    split
    · exact Int.le_refl _
    · exact h
  | count id n due msgs =>
    simp only [Phase.spent]
    split
    · exact Int.le_refl _
    · exact h
  | _ => exact h

/-- Steps of other threads: the payload stays, and the counter is not set back. -/
theorem Within.frame {i m : Bytes} {t t' : PendingTables} {k : Nat} {p : Phase}
    (h : Within i m t k p) (hp : t'.payload i = t.payload i)
    (ha : (t.attempts i).getD 0 ≤ (t'.attempts i).getD 0) : Within i m t' k p := by
  refine ⟨fun hl => ?_, fun hg => h.gone (by rw [← hp]; exact hg)⟩
  obtain ⟨h₁, h₂⟩ := h.live (by rw [← hp]; exact hl)
  exact ⟨Int.le_trans h₁ (p.spent_mono ha), h₂⟩

/-- The id being sent is that of the text. -/
def Phase.Named : Phase → Prop
  | .send msg id _ _ => extractJsonValue msg (ascii "msg_id") = id
  | _ => True

/-- In a send of the message, and in no other, the id is the message's. -/
def Phase.Matches (i m : Bytes) : Phase → Prop
  | .send msg id _ _ => msg = m ↔ id = i
  | _ => True

/-- What a call has in hand is what waits, and what it is about to send. -/
theorem Phase.Matches.count_msgs {i m : Bytes} {p : Phase} (h : p.Matches i m) :
    p.msgs.count m = p.waiting.count m + p.sending i := by
  cases p with
  | send msg id attempt msgs =>
    simp only [Phase.msgs, Phase.waiting, Phase.sending, List.count_cons, beq_iff_eq]
    by_cases hid : id = i
    · rw [if_pos hid, if_pos (h.mpr hid)]
    · rw [if_neg hid, if_neg fun heq => hid (h.mp heq)]
  | _ => rfl

/-- No local variable is about to overwrite the counter. -/
theorem Phase.spent_eq {i : Bytes} {a : Int} {p : Phase} (hsend : p.sending i = 0)
    (hserved : p.served.count i = 0) : p.spent i a = a := by
  cases p with
  | send msg id attempt msgs =>
    simp only [Phase.sending] at hsend
    split at hsend
    · exact absurd hsend (by simp)
    · next hid => exact if_neg hid
  | count id n due msgs =>
    have hid : id ≠ i := by
      rintro rfl
      simp [Phase.served] at hserved
    exact if_neg hid
  | _ => rfl

/-- **The acknowledgement.** What the call still holds was within the limit already, or it
    waits and has attempts left. -/
theorem Within.ack {i m : Bytes} {t t' : PendingTables} {k : Nat} {p : Phase}
    (h : Within i m t k p) (hw : p.weight i m ≤ 1) (hmatch : p.Matches i m)
    (hgone : t'.payload i = none)
    (hleft : m ∈ p.waiting → (t.attempts i).getD 0 < kRetryMaxAttempts) : Within i m t' k p := by
  refine ⟨fun hl => absurd hgone hl, fun _ => ?_⟩
  by_cases hp : t.payload i = none
  · exact h.gone hp
  obtain ⟨hspent, hk⟩ := h.live hp
  unfold Phase.weight at hw
  rw [hmatch.count_msgs] at hw ⊢
  by_cases hm : m ∈ p.waiting
  · -- it waits, so nothing else of it is in hand and the counter speaks for it
    have hcount : 1 ≤ p.waiting.count m := List.count_pos_iff.mpr hm
    have hsend : p.sending i = 0 := by omega
    have hserved : p.served.count i = 0 := by omega
    have hleft := hleft hm
    rw [Phase.spent_eq hsend hserved] at hspent
    unfold kRetryMaxAttempts at hleft
    omega
  · rw [List.count_eq_zero.mpr hm]
    omega

/-! ## 4. A step of the retrying call -/

section

variable {s : State} {τ : List Event} {u json : Bytes} {id : UInt64} (hb : Base s τ)
  (hst : .stored u id json ∈ τ)

include hb hst

/-- A fetched text is the message's if its id is. -/
theorem Base.fetched {v msg : Bytes} (hf : Fetched τ v msg) :
    msg = cStr json ↔ extractJsonValue msg (ascii "msg_id") = idStr id := by
  obtain ⟨id', json', rfl, hst'⟩ := hf
  rw [(hb.message hst').2.extract_cStr]
  constructor
  · intro heq
    have h := (hb.message hst').2.extract_cStr
    rw [heq, (hb.message hst).2.extract_cStr] at h
    exact h.symm
  · intro heq
    obtain rfl := idStr_inj heq
    rw [(hb.unique hst' hst).2]

/-- The text is read under the message's id and no other. -/
theorem Base.read {v i json' : Bytes} (hp : (s.redis.tables v).payload i = some json')
    (heq : cStr json' = cStr json) : i = idStr id ∧ v = u := by
  obtain ⟨id', rfl, hst'⟩ := hb.tables.payload hp
  have h := (hb.message hst').2.extract_cStr
  rw [heq, (hb.message hst).2.extract_cStr] at h
  obtain rfl := idStr_inj h
  exact ⟨rfl, (hb.unique hst' hst).1⟩

theorem Base.matches {v : Bytes} {p : Phase} (hp : PhaseOk τ v p) (hnamed : p.Named) :
    p.Matches (idStr id) (cStr json) := by
  cases p with
  | send msg i attempt msgs =>
    have h := hb.fetched hst (hp.msgs msg List.mem_cons_self)
    rwa [show extractJsonValue msg (ascii "msg_id") = i from hnamed] at h
  | _ => trivial

/-- The call never has to do with the message twice. -/
theorem dispatchStep_weight {d : Dispatch} {now : Int} {q : Phase} {r : Redis} {es : List Event}
    (hphase : PhaseOk τ (cStr d.user) d.phase) (hnamed : d.phase.Named) (hnd : q.todo.Nodup)
    (hw : d.phase.weight (idStr id) (cStr json) ≤ 1)
    (h : dispatchStep s.redis d now = (some q, r, es)) : q.weight (idStr id) (cStr json) ≤ 1 := by
  obtain ⟨call, user, includeAll, phase⟩ := d
  dsimp only at hphase hnamed hw
  cases dispatchMove h with
  | range _ => exact List.nodup_iff_count_le_one.mp hnd (idStr id)
  | fetched => exact hw
  | @fetch i ids msgs json' hp =>
    simp only [Phase.weight, Phase.todo, Phase.msgs, Phase.served, List.count_cons, List.count_append,
      List.count_nil, beq_iff_eq] at hw ⊢
    -- the text is the message's only if the id was
    by_cases heq : cStr json' = cStr json
    · rw [if_pos heq]
      rw [if_pos (hb.read hst hp heq).1] at hw
      omega
    · rw [if_neg heq]
      omega
  | miss _ =>
    simp only [Phase.weight, Phase.todo, Phase.msgs, Phase.served, List.count_cons,
      List.count_nil] at hw ⊢
    omega
  | unschedule => exact hw
  | skip _ _ =>
    simp only [Phase.weight, Phase.todo, Phase.msgs, Phase.served, List.count_cons,
      List.count_nil] at hw ⊢
    omega
  | serve _ _ _ _ =>
    simp only [Phase.weight, Phase.todo, Phase.msgs, Phase.served, List.count_cons,
      List.count_nil] at hw ⊢
    omega
  | @send msg i attempt msgs =>
    have hmatch := hb.matches hst hphase hnamed
    simp only [Phase.weight, Phase.todo, Phase.msgs, Phase.served, List.count_cons,
      List.count_nil, beq_iff_eq] at hw ⊢
    by_cases hi : i = idStr id
    · rw [if_pos (hmatch.mpr hi)] at hw
      rw [if_pos hi]
      omega
    · rw [if_neg hi]
      omega
  | count => exact hw
  | reschedule =>
    simp only [Phase.weight, Phase.todo, Phase.msgs, Phase.served, List.count_nil] at hw ⊢
    omega

/-- **A step of the retrying call** stays within the limit: it sends only what it found
    below the limit, and then counts it. -/
theorem dispatchStep_within {d : Dispatch} {now : Int} {q : Option Phase} {r : Redis}
    {es : List Event} {k : Nat} (hu : cStr d.user = u) (hretry : d.includeAll = false)
    (hphase : PhaseOk τ (cStr d.user) d.phase) (hnamed : d.phase.Named)
    (hin : Within (idStr id) (cStr json) (s.redis.tables u) k d.phase)
    (h : dispatchStep s.redis d now = (q, r, es)) :
    Within (idStr id) (cStr json) (r.tables u) (k + d.phase.sends (cStr json)) (q.getD .range) := by
  obtain ⟨call, user, includeAll, phase⟩ := d
  dsimp only at hu hretry hphase hnamed hin ⊢
  subst hretry
  -- where the tables and the attempts accounted for stay, fewer messages in hand are no harm
  have hless : ∀ {q : Phase}, (∀ a, phase.spent (idStr id) a = q.spent (idStr id) a) →
      q.sending (idStr id) = 0 → q.msgs.count (cStr json) ≤ phase.msgs.count (cStr json) →
      Within (idStr id) (cStr json) (s.redis.tables u) k q := by
    intro q hspent hsend hmsgs
    refine ⟨fun hl => ?_, fun hg => Nat.le_trans (Nat.add_le_add_left hmsgs k) (hin.gone hg)⟩
    obtain ⟨h₁, h₂⟩ := hin.live hl
    rw [← hspent, hsend]
    exact ⟨h₁, by omega⟩
  cases dispatchMove h with
  | refuse _ => exact hin
  | range _ => exact hless (fun _ => rfl) rfl (Nat.le_refl _)
  | fetched => exact hless (fun _ => rfl) rfl (Nat.le_refl _)
  | @fetch i ids msgs json' hp =>
    refine ⟨hin.live, fun hg => ?_⟩
    -- an acknowledged message is not read
    have hne : cStr json' ≠ cStr json := by
      intro heq
      rw [(hb.read hst hp heq).1, hu, hg] at hp
      exact absurd hp (by simp)
    have hcount : (msgs ++ [cStr json']).count (cStr json) = msgs.count (cStr json) := by
      rw [List.count_append, List.count_singleton, if_neg (by simpa using hne), Nat.add_zero]
    show k + 0 + (msgs ++ [cStr json']).count (cStr json) ≤ 5
    rw [hcount]
    exact hin.gone hg
  | miss _ => exact hless (fun _ => rfl) rfl (Nat.le_refl _)
  | @unschedule i ids msgs =>
    have hin' : Within (idStr id) (cStr json) (s.redis.tables u) k (.fetch ids msgs) :=
      hless (fun _ => rfl) rfl (Nat.le_refl _)
    refine hin'.frame ?_ ?_
    · rw [Redis.zremSchedule, Redis.modify_apply]; split <;> rfl
    · rw [Redis.zremSchedule, Redis.modify_apply]; split <;> exact Int.le_refl _
  | done => exact hless (fun _ => rfl) rfl (Nat.le_refl _)
  | skip _ _ => exact hless (fun _ => rfl) rfl (List.count_le_count_cons ..)
  | @serve msg msgs i attempt hid _ hattempt hmax =>
    refine ⟨fun hl => ?_, hin.gone⟩
    obtain ⟨h₁, h₂⟩ := hin.live hl
    simp only [Phase.spent, Phase.sending] at h₁ h₂
    simp only [Option.getD_some, Phase.spent, Phase.sending, Phase.sends, Nat.add_zero]
    have hmax := Int.not_le.mp fun hle => hmax ⟨hle, rfl⟩
    unfold kRetryMaxAttempts at hmax
    rw [hu] at hattempt
    split
    · next hi =>
      rw [hi] at hattempt
      rw [hattempt] at h₁
      exact ⟨h₁, by omega⟩
    · exact ⟨h₁, h₂⟩
  | @send msg i attempt msgs =>
    have hmatch : msg = cStr json ↔ i = idStr id := hb.matches hst hphase hnamed
    refine ⟨fun hl => ?_, fun hg => ?_⟩
    · obtain ⟨h₁, h₂⟩ := hin.live hl
      simp only [Phase.spent, Phase.sending] at h₁ h₂
      simp only [Option.getD_some, Phase.spent, Phase.sending, Phase.sends, Bool.false_eq_true,
        if_false]
      by_cases hid : i = idStr id
      · rw [if_pos hid] at h₁ h₂ ⊢
        rw [if_pos (hmatch.mpr hid)]
        exact ⟨by omega, by omega⟩
      · rw [if_neg hid] at h₁ h₂ ⊢
        rw [if_neg fun heq => hid (hmatch.mp heq)]
        exact ⟨h₁, h₂⟩
    · have h₁ := hin.gone hg
      simp only [Phase.msgs, List.count_cons, beq_iff_eq] at h₁
      simp only [Option.getD_some, Phase.msgs, Phase.sends]
      omega
  | @count i n due msgs =>
    rw [Redis.hsetAttempt, hu, Redis.modify_same]
    refine ⟨fun hl => ?_, hin.gone⟩
    obtain ⟨h₁, h₂⟩ := hin.live hl
    simp only [Phase.spent] at h₁
    refine ⟨?_, h₂⟩
    show (k : Int) ≤ (Function.update (s.redis.tables u).attempts i (some n) (idStr id)).getD 0
    by_cases hid : i = idStr id
    · rw [if_pos hid] at h₁
      rw [hid, Function.update_self]
      exact h₁
    · rw [if_neg hid] at h₁
      rw [Function.update_of_ne fun heq => hid heq.symm]
      exact h₁
  | @reschedule i due msgs =>
    have hin' : Within (idStr id) (cStr json) (s.redis.tables u) k (.serve msgs) :=
      hless (fun _ => rfl) rfl (Nat.le_refl _)
    refine hin'.frame ?_ ?_
    · rw [Redis.zaddSchedule, Redis.modify_apply]; split <;> rfl
    · rw [Redis.zaddSchedule, Redis.modify_apply]; split <;> exact Int.le_refl _

end

theorem dispatchStep_named {r r' : Redis} {d : Dispatch} {now : Int} {q : Option Phase}
    {es : List Event} (h : dispatchStep r d now = (q, r', es)) : (q.getD .range).Named := by
  obtain ⟨call, user, includeAll, phase⟩ := d
  cases dispatchMove h with
  | serve hid _ _ _ => exact hid
  | _ => trivial

/-! ## 5. Every step -/

/-- A dispatch sets back no counter but the one it is about to write. -/
theorem dispatchStep_attempt {r r' : Redis} {d : Dispatch} {now : Int} {q : Option Phase}
    {es : List Event} {u : Bytes} (h : dispatchStep r d now = (q, r', es))
    (hcount : ∀ {id n due msgs}, d.phase = .count id n due msgs → cStr d.user = u →
      attemptOf r u id ≤ n) (i : Bytes) : attemptOf r u i ≤ attemptOf r' u i := by
  unfold attemptOf at hcount ⊢
  rcases dispatchStep_tables h with rfl | ⟨j, rfl⟩ | ⟨j, n, due, msgs, hph, -, rfl⟩ |
    ⟨j, due, msgs, -, rfl⟩
  · exact Int.le_refl _
  · rw [Redis.zremSchedule, Redis.modify_apply]; split <;> exact Int.le_refl _
  · rw [Redis.hsetAttempt, Redis.modify_apply]
    split
    · next hu =>
      dsimp only
      by_cases hij : i = j
      · subst hij
        rw [Function.update_self]
        exact hcount hph hu.symm
      · rw [Function.update_of_ne hij]
    · exact Int.le_refl _
  · rw [Redis.zaddSchedule, Redis.modify_apply]; split <;> exact Int.le_refl _

theorem retryPhase_of_other {u : Bytes} {d : Dispatch} {users : List Bytes}
    (h : ¬ (d.includeAll = false ∧ cStr d.user = u)) :
    (Pc.dispatch d users).retryPhase u = .range := if_neg h

theorem retryPhase_of_plain {u : Bytes} {pc : Pc} (h : pc.isDispatch = false) :
    pc.retryPhase u = .range := by
  cases pc with
  | dispatch d users => exact absurd h (by simp [Pc.isDispatch])
  | _ => rfl

theorem PcOk.retryPhase {τ : List Event} {pc : Pc} (h : PcOk τ pc) (u : Bytes) :
    PhaseOk τ u (pc.retryPhase u) := by
  have hrange : PhaseOk τ u .range :=
    ⟨by simp [Phase.todo], by simp [Phase.msgs], by simp [Phase.busy], by simp [Phase.stale]⟩
  cases pc with
  | dispatch d users =>
    simp only [Pc.retryPhase]
    split
    · next hd => rw [← hd.2]; exact h
    · exact hrange
  | _ => exact hrange

/-- A counted step says so in the trace. -/
theorem retrySend_sent {s s' : State} {l : Label} {es : List Event} {m : Bytes}
    (h : step s l = some (s', es)) (hne : retrySend m s l ≠ 0) : ∃ c v i, .sent c v i m ∈ es := by
  cases l with
  | move tid now flag =>
    simp only [retrySend] at hne
    cases hth : s.threads tid with
    | dispatch d users =>
      obtain ⟨call, user, includeAll, phase⟩ := d
      simp only [hth] at hne
      cases phase with
      | send msg id attempt msgs =>
        have hmsg : msg = m := by
          by_contra hmsg
          exact hne (by simp [Phase.sends, hmsg])
        subst hmsg
        simp only [step, move, hth, dispatchStep, Option.some.injEq, Prod.mk.injEq] at h
        exact ⟨call, cStr user, id, by rw [← h.2]; exact List.mem_singleton.mpr rfl⟩
      | _ => exact absurd (by simp [Phase.sends]) hne
    | _ => exact absurd (by simp [hth]) hne
  | _ => exact absurd rfl hne

/-- Every retry of the message so far is accounted for. -/
structure Tally (retry : Nat) (u : Bytes) (id : UInt64) (json : Bytes) (s : State)
    (τ : List Event) (k : Nat) : Prop where
  base : Base s τ
  calls : Calls s τ
  roles : Roles retry s
  named : ((s.threads retry).retryPhase u).Named
  fresh : (∀ v json', .stored v id json' ∉ τ) → k = 0
  weight : .stored u id json ∈ τ →
    ((s.threads retry).retryPhase u).weight (idStr id) (cStr json) ≤ 1
  within : .stored u id json ∈ τ → Within (idStr id) (cStr json) (s.redis.tables u) k
    ((s.threads retry).retryPhase u)

section

variable {retry : Nat} {u json : Bytes} {id : UInt64} {s s' : State} {τ es : List Event} {k : Nat}
  {l : Label}

/-- A call cannot have to do with an id nobody has stored. -/
theorem fresh_phase (hmsg : IsMessage id json) (hnew : ∀ v json', .stored v id json' ∉ τ)
    (hb : Base s τ) {p : Phase} (hp : PhaseOk τ u p) :
    p.weight (idStr id) (cStr json) = 0 ∧ p.sending (idStr id) = 0 := by
  have hknown : ¬ Known τ u (idStr id) := by
    rintro ⟨id', json', hid, hst⟩
    rw [← idStr_inj hid] at hst
    exact hnew u json' hst
  have htodo : p.todo.count (idStr id) = 0 := List.count_eq_zero.mpr fun h => hknown (hp.todo _ h)
  have hmsgs : p.msgs.count (cStr json) = 0 := by
    refine List.count_eq_zero.mpr fun h => ?_
    obtain ⟨id', json', heq, hst⟩ := hp.msgs _ h
    have hid := (hb.message hst).2.extract_cStr
    rw [← heq, hmsg.extract_cStr] at hid
    rw [← idStr_inj hid] at hst
    exact hnew u json' hst
  have hserved : p.served.count (idStr id) = 0 := by
    refine List.count_eq_zero.mpr fun h => ?_
    cases p with
    | count i n due msgs => exact hknown (List.mem_singleton.mp h ▸ hp.busy i rfl)
    | reschedule i due msgs => exact hknown (List.mem_singleton.mp h ▸ hp.busy i rfl)
    | _ => exact absurd h (by simp [Phase.served])
  have hsend : p.sending (idStr id) = 0 := by
    cases p with
    | send msg i attempt msgs =>
      have hne : i ≠ idStr id := by
        rintro rfl
        exact hknown (hp.busy _ rfl)
      exact if_neg hne
    | _ => rfl
  exact ⟨by rw [Phase.weight, htodo, hmsgs, hserved], hsend⟩

/-- A text about to be passed to `sendPacket` was stored under its id. -/
theorem sends_stored (hmsg : IsMessage id json) (hb : Base s τ) {v : Bytes} {p : Phase}
    (hp : PhaseOk τ v p) (hsends : p.sends (cStr json) ≠ 0) : ∃ json', .stored v id json' ∈ τ := by
  cases p with
  | send msg i attempt msgs =>
    have heq : msg = cStr json := by
      by_contra hne
      exact hsends (if_neg hne)
    obtain ⟨id', json', heq', hst⟩ := hp.msgs msg List.mem_cons_self
    have hid := (hb.message hst).2.extract_cStr
    rw [← heq', heq, hmsg.extract_cStr] at hid
    rw [← idStr_inj hid] at hst
    exact ⟨json', hst⟩
  | _ => exact absurd rfl hsends

/-- The retrying call is where it was, and nothing is counted. -/
theorem Tally.same (hi : Tally retry u id json s τ k) (hb : Base s' (τ ++ es))
    (hc : Calls s' (τ ++ es)) (hr : Roles retry s')
    (hphase : (s'.threads retry).retryPhase u = (s.threads retry).retryPhase u)
    (hst : ∀ v json', .stored v id json' ∉ es)
    (hin : .stored u id json ∈ τ → Within (idStr id) (cStr json) (s'.redis.tables u) k
      ((s.threads retry).retryPhase u)) : Tally retry u id json s' (τ ++ es) k := by
  have hold : ∀ {v json'}, Event.stored v id json' ∈ τ ++ es → .stored v id json' ∈ τ :=
    fun h => (List.mem_append.mp h).resolve_right (hst _ _)
  refine ⟨hb, hc, hr, by rw [hphase]; exact hi.named, fun hnew => hi.fresh fun v json' h => ?_, ?_, ?_⟩
  · exact hnew v json' (List.mem_append_left _ h)
  · intro h
    rw [hphase]
    exact hi.weight (hold h)
  · intro h
    rw [hphase]
    exact hin (hold h)

/-- A step of a dispatch, `retryLoop`'s or a login's. -/
theorem Tally.dispatch (hmsg : IsMessage id json) {tid : Nat} {flag : Bool} {d : Dispatch}
    {users : List Bytes} {now : Int} {p : Option Phase} {r : Redis}
    (hi : Tally retry u id json s τ k) (hth : s.threads tid = .dispatch d users)
    (hd : dispatchStep s.redis d now = (p, r, es))
    (hcount : CountKept retry s (.move tid now flag))
    (hb : Base (setThread { s with redis := r } tid (afterDispatch d users p)) (τ ++ es))
    (hc : Calls (setThread { s with redis := r } tid (afterDispatch d users p)) (τ ++ es))
    (hr : Roles retry (setThread { s with redis := r } tid (afterDispatch d users p))) :
    Tally retry u id json (setThread { s with redis := r } tid (afterDispatch d users p)) (τ ++ es)
      (k + retrySend (cStr json) s (.move tid now flag)) := by
  have hpc := hi.base.threads tid
  have hrole := hi.roles tid
  rw [hth] at hpc hrole
  have hquiet : ∀ v json', Event.stored v id json' ∉ es := by
    intro v json' he
    have hq := (dispatchStep_spec hi.base.tables (fun h => (hi.base.message h).2) hpc hd).2.1
    exact hq _ he
  have hphase : ∀ {v}, ((afterDispatch d users p).retryPhase v)
      = if d.includeAll = false ∧ cStr d.user = v then p.getD .range else .range := by
    intro v
    cases p with
    | some q => rfl
    | none => exact (ite_self _).symm
  have hcounted : retrySend (cStr json) s (.move tid now flag)
      = if d.includeAll = false then d.phase.sends (cStr json) else 0 := by
    simp only [retrySend, hth]
  rw [hcounted]
  by_cases hmine : d.includeAll = false ∧ cStr d.user = u
  · -- the retrying call of this user
    obtain ⟨hretry, hu⟩ := hmine
    have htid : tid = retry := by simpa [Pc.Role, hretry] using hrole
    subst htid
    have hph : (s.threads tid).retryPhase u = d.phase := by
      rw [hth]
      exact if_pos ⟨hretry, hu⟩
    have hnamed := hi.named
    rw [hph] at hnamed
    rw [if_pos hretry]
    have hphase' : (((setThread { s with redis := r } tid (afterDispatch d users p)).threads
        tid).retryPhase u) = p.getD .range := by
      rw [setThread_same, hphase, if_pos ⟨hretry, hu⟩]
    refine ⟨hb, hc, hr, by rw [hphase']; exact dispatchStep_named hd, fun hnew => ?_, fun h => ?_,
      fun h => ?_⟩
    · have hnew' : ∀ v json', Event.stored v id json' ∉ τ :=
        fun v json' h => hnew v json' (List.mem_append_left _ h)
      rw [hi.fresh hnew', Nat.zero_add]
      by_contra hsends
      obtain ⟨json', hst⟩ := sends_stored hmsg hi.base hpc hsends
      exact hnew' _ _ hst
    · have hst := (List.mem_append.mp h).resolve_right (hquiet _ _)
      rw [hphase']
      cases p with
      | none => exact Nat.zero_le _
      | some q =>
        have hnd := (dispatchStep_reads hi.base.tables hi.calls.schedule (hi.calls.todo hth) hd).1
        have hw := hi.weight hst
        rw [hph] at hw
        exact dispatchStep_weight hi.base hst hpc hnamed hnd hw hd
    · have hst := (List.mem_append.mp h).resolve_right (hquiet _ _)
      have hin := hi.within hst
      rw [hph] at hin
      rw [hphase']
      exact dispatchStep_within hi.base hst hu hretry hpc hnamed hin hd
  · -- another user's, or a login's
    have hother : ((setThread { s with redis := r } tid (afterDispatch d users p)).threads
        retry).retryPhase u = (s.threads retry).retryPhase u := by
      by_cases ht : retry = tid
      · subst ht
        rw [setThread_same, hphase, if_neg hmine, hth, retryPhase_of_other hmine]
      · rw [setThread_other ht]
    by_cases hzero : (if d.includeAll = false then d.phase.sends (cStr json) else 0) = 0
    · rw [hzero]
      refine hi.same hb hc hr hother hquiet fun hst => (hi.within hst).frame ?_ ?_
      · rw [show (setThread { s with redis := r } tid (afterDispatch d users p)).redis = r from rfl,
          dispatchStep_payload hd]
      · refine dispatchStep_attempt hd ?_ (idStr id)
        intro i n due msgs hph hu
        have hlogin : d.includeAll = true := by
          by_contra h
          exact hmine ⟨by simpa using h, hu⟩
        have hwb : (s.threads tid).writeBack = some (cStr d.user, i, n) := by
          obtain ⟨call, user, includeAll, phase⟩ := d
          dsimp only at hlogin hph
          subst hlogin hph
          rw [hth]
          rfl
        have hle := hcount _ hwb
        rw [hu] at hle
        exact hle
    · -- it sends a text of this id: then the id was stored for that user and not for this one
      have hretry : d.includeAll = false := by
        by_contra h
        exact hzero (if_neg h)
      rw [if_pos hretry] at hzero ⊢
      obtain ⟨json', hst'⟩ := sends_stored hmsg hi.base hpc hzero
      have hnot : Event.stored u id json ∉ τ ++ es := by
        intro h
        have hst := (List.mem_append.mp h).resolve_right (hquiet _ _)
        exact hmine ⟨hretry, (hi.base.unique hst' hst).1⟩
      refine ⟨hb, hc, hr, by rw [hother]; exact hi.named, fun hnew => ?_, fun h => absurd h hnot,
        fun h => absurd h hnot⟩
      exact absurd (List.mem_append_left _ hst') (hnew _ _)

/-- The store of the message itself, or of another. -/
theorem Tally.store {target json₁ : Bytes} {id₁ : UInt64} {due : Int}
    (hi : Tally retry u id json s τ k) (hmsg : IsMessage id₁ json₁) (hfresh : id₁ ∉ s.storedIds)
    (hredis : s'.redis = s.redis.storeScript target (idStr id₁) json₁ due)
    (hphase : (s'.threads retry).retryPhase u = (s.threads retry).retryPhase u)
    (hb : Base s' (τ ++ [.stored target id₁ json₁])) (hc : Calls s' (τ ++ [.stored target id₁ json₁]))
    (hr : Roles retry s') : Tally retry u id json s' (τ ++ [.stored target id₁ json₁]) k := by
  by_cases hid : id₁ = id
  · -- the id is new, so nothing has been retried
    subst hid
    have hnew : ∀ v json', Event.stored v id₁ json' ∉ τ := fun v json' h => hfresh (hi.base.ids h)
    obtain rfl := hi.fresh hnew
    have hstored : Event.stored u id₁ json ∈ τ ++ [.stored target id₁ json₁] → target = u ∧ json₁ = json := by
      intro h
      have h := List.mem_singleton.mp ((List.mem_append.mp h).resolve_left (hnew _ _))
      simp only [Event.stored.injEq, true_and] at h
      exact ⟨h.1.symm, h.2.symm⟩
    have hzero : json₁ = json → _ := fun heq =>
      fresh_phase (heq ▸ hmsg) hnew hi.base ((hi.base.threads retry).retryPhase u)
    refine ⟨hb, hc, hr, by rw [hphase]; exact hi.named, fun _ => rfl, fun h => ?_, fun h => ?_⟩
    · rw [hphase, (hzero (hstored h).2).1]
      exact Nat.zero_le 1
    · obtain ⟨rfl, rfl⟩ := hstored h
      obtain ⟨hweight, hsend⟩ := hzero rfl
      simp only [Phase.weight] at hweight
      rw [hphase]
      refine ⟨fun _ => ?_, fun hg => ?_⟩
      · rw [hsend, hredis, Redis.storeScript_tables, if_pos rfl, Phase.spent_eq hsend (by omega)]
        dsimp only
        rw [Function.update_self]
        exact ⟨Int.le_refl _, by omega⟩
      · omega
  · have hne : idStr id ≠ idStr id₁ := fun h => hid (idStr_inj h).symm
    refine hi.same hb hc hr hphase ?_ fun hst => (hi.within hst).frame ?_ ?_
    · intro v json' h
      simp only [List.mem_singleton, Event.stored.injEq] at h
      exact hid h.2.1.symm
    · rw [hredis, Redis.storeScript_tables]
      split
      · exact Function.update_of_ne hne ..
      · rfl
    · rw [hredis, Redis.storeScript_tables]
      split
      · dsimp only
        rw [Function.update_of_ne hne]
      · exact Int.le_refl _

/-- An acknowledgement of this user's messages, or of another's. -/
theorem Tally.ack {tid : Nat} {user : Bytes} {ids : List UInt64}
    (hi : Tally retry u id json s τ k) (hcount : CountKept retry s (.ackPending tid user ids))
    (hredis : s'.redis = s.redis.ackScript user (ackedIds ids)) (hth : s'.threads = s.threads)
    (hb : Base s' (τ ++ [.acked user ids])) (hc : Calls s' (τ ++ [.acked user ids]))
    (hr : Roles retry s') : Tally retry u id json s' (τ ++ [.acked user ids]) k := by
  refine hi.same hb hc hr (by rw [hth]) (by simp) fun hst => ?_
  have hin := hi.within hst
  by_cases hu : u = user
  · subst hu
    by_cases hid : idStr id ∈ ackedIds ids
    · refine hin.ack (hi.weight hst)
        (hi.base.matches hst ((hi.base.threads retry).retryPhase u) hi.named) ?_ fun hm => ?_
      · rw [hredis, Redis.ackScript_payload, if_pos hid]
      · have hext := (hi.base.message hst).2.extract_cStr
        have hlt := hcount _ hm
        rw [hext] at hlt
        exact hlt hid
    · refine hin.frame ?_ ?_
      · rw [hredis, Redis.ackScript_payload, if_neg hid]
      · rw [hredis, Redis.ackScript_attempts, if_neg hid]
  · have htab : s'.redis.tables u = s.redis.tables u := by
      rw [hredis, Redis.ackScript, Redis.modify_other _ _ hu]
    rw [htab]
    exact hin

/-- **One step** keeps the tally. -/
theorem Tally.step (hmsg : IsMessage id json) (hi : Tally retry u id json s τ k)
    (hone : RetriesOn retry l) (hcount : CountKept retry s l)
    (h : step s l = some (s', es)) :
    Tally retry u id json s' (τ ++ es) (k + retrySend (cStr json) s l) := by
  have hb := hi.base.step h
  have he := step_effect h
  have hc := hi.calls.step hi.base he
  have hr := hi.roles.step hone h
  -- only a dispatch sends
  have hzero : (∀ c v i, Event.sent c v i (cStr json) ∉ es) → retrySend (cStr json) s l = 0 := by
    intro hno
    by_contra hne
    obtain ⟨c, v, i, hm⟩ := retrySend_sent h hne
    exact hno c v i hm
  have hmoved : ∀ {s₀ : State} {tid : Nat} {pc : Pc}, s₀.threads = s.threads →
      (s.threads tid).retryPhase u = .range → pc.retryPhase u = .range →
      ((setThread s₀ tid pc).threads retry).retryPhase u = (s.threads retry).retryPhase u := by
    intro s₀ tid pc hs₀ hold hpc
    by_cases ht : retry = tid
    · subst ht
      rw [setThread_same, hpc, hold]
    · rw [setThread_other ht, hs₀]
  cases he with
  | stay =>
    rw [hzero (by simp)]
    exact hi.same hb hc hr rfl (by simp) hi.within
  | plain hth hpc hes =>
    rw [hzero fun c v i hm => absurd (hes _ hm) (by simp [Event.isDirect])]
    refine hi.same hb hc hr (hmoved rfl (retryPhase_of_plain hth) (retryPhase_of_plain hpc)) ?_ hi.within
    exact fun v json' hm => absurd (hes _ hm) (by simp [Event.isDirect])
  | start hth =>
    rw [hzero (by simp)]
    refine hi.same hb hc hr (hmoved rfl (retryPhase_of_plain hth) ?_) (by simp) hi.within
    exact ite_self _
  | dispatch hth hd => exact hi.dispatch hmsg hth hd hcount hb hc hr
  | @store _ tid target json₁ id₁ due hth hfresh =>
    rw [hzero (by simp)]
    have hmsg₁ : IsMessage id₁ json₁ := by
      have hpc := hi.base.threads tid
      rw [hth] at hpc
      exact hpc
    have hredis : s.redis.storeScript target (toDecimal (effectiveId id₁ json₁)) json₁ due
        = s.redis.storeScript target (idStr id₁) json₁ due := by
      rw [effectiveId_eq hmsg₁]
      rfl
    exact hi.store hmsg₁ hfresh hredis (hmoved rfl (by rw [hth]; rfl) rfl) hb hc hr
  | ack =>
    rw [hzero (by simp)]
    exact hi.ack hcount rfl rfl hb hc hr

theorem Tally.start : Tally retry u id json {} [] 0 :=
  ⟨Base.start, Calls.start, fun _ => trivial, trivial, fun _ => rfl, fun h => absurd h (by simp),
    fun h => absurd h (by simp)⟩

end

/-! ## 6. Bounded retries -/

/-- **At most five retries**, in every run in which one thread retries, no login dispatch
    sets a counter back, and no acknowledgement deletes the counter of a message that has
    used up its attempts and waits in the retrying thread's hands. -/
theorem retries_bounded {retry : Nat} {ls : List Label} {s : State} {τ : List Event}
    (hr : run step {} ls = some (s, τ)) (hone : ∀ l ∈ ls, RetriesOn retry l)
    (hm : Meets step (CountKept retry) {} ls) {u json : Bytes} {id : UInt64}
    (hst : .stored u id json ∈ τ) :
    (total step (retrySend (cStr json)) {} ls : Int) ≤ kRetryMaxAttempts := by
  have hmsg := ((Base.run hr).message hst).2
  have h := run_total (Tally retry u id json) (fun hi hp hs => hi.step hmsg hp.1 hp.2 hs)
    Tally.start ((meets_of_labels hone).and hm) hr
  rw [List.nil_append, Nat.zero_add] at h
  have hin := h.within hst
  refine Int.ofNat_le.mpr (?_ : total step (retrySend (cStr json)) {} ls ≤ 5)
  by_cases hp : (s.redis.tables u).payload (idStr id) = none
  · exact Nat.le_trans (Nat.le_add_right _ _) (hin.gone hp)
  · exact Nat.le_trans (Nat.le_add_right _ _) (hin.live hp).2

/-- The first steps of the runs below: alice sends bob message 7. -/
def oneMessage : List Label :=
  .privateSend 0 (ascii "alice") (ascii "bob") (ascii "hi") (ascii "12:00") 7
    :: List.replicate 3 (.move 0 1000 true)

/-- A scan of `retryLoop` that finds the message due, sends it and reschedules it. -/
def retryPass (now : Int) : List Label := .retryScan 1 :: List.replicate 10 (.move 1 now true)

/-- The stored text of message 7. -/
def messageSeven : Bytes :=
  buildEnrichedChatBodyWithMsgId 7 (ascii "alice") (ascii "bob") (ascii "hi") (ascii "12:00")

/-- Five passes send it, a sixth scan leaves it alone. -/
def fivePasses : List Label :=
  oneMessage ++ retryPass 10000 ++ retryPass 20000 ++ retryPass 30000 ++ retryPass 40000
    ++ retryPass 50000 ++ (.retryScan 1 :: List.replicate 7 (.move 1 60000 true))

/-- The limit is reached. -/
theorem retries_bounded_five : total step (retrySend (cStr messageSeven)) {} fivePasses = 5 ∧
    (total step (retrySend (cStr messageSeven)) {} fivePasses : Int) ≤ kRetryMaxAttempts := by
  refine ⟨by decide, ?_⟩
  obtain ⟨⟨s, τ⟩, hr, hst⟩ := Option.map_eq_some_iff.mp (show (run step {} fivePasses).map
    (fun p => decide (Event.stored (ascii "bob") 7 messageSeven ∈ p.2)) = some true by decide)
  have hone : ∀ l ∈ fivePasses, RetriesOn 1 l := by decide
  have hkept : Meets step (CountKept 1) {} fivePasses := by
    set_option maxRecDepth 4000 in decide
  exact retries_bounded hr hone hkept (of_decide_eq_true hst)

/-- **The sixth retry.** A login dispatch of bob reads the counter at 0; `retryLoop` sends the
    message and counts 1; the login dispatch writes 0 back; five more passes follow. -/
theorem sixth_retry : ∃ (ls : List Label) (s : State) (τ : List Event),
    run step {} ls = some (s, τ) ∧ (∀ l ∈ ls, RetriesOn 1 l) ∧
    .stored (ascii "bob") 7 messageSeven ∈ τ ∧
    ¬ (total step (retrySend (cStr messageSeven)) {} ls : Int) ≤ kRetryMaxAttempts := by
  let ls : List Label := oneMessage
    ++ (.loginDispatch 2 (ascii "bob") :: List.replicate 4 (.move 2 10000 true)) ++ retryPass 10000
    ++ List.replicate 5 (.move 2 11000 true) ++ retryPass 20000 ++ retryPass 30000
    ++ retryPass 40000 ++ retryPass 50000 ++ retryPass 60000
  obtain ⟨⟨s, τ⟩, hr, hst⟩ := Option.map_eq_some_iff.mp (show (run step {} ls).map
    (fun p => decide (Event.stored (ascii "bob") 7 messageSeven ∈ p.2)) = some true by decide)
  exact ⟨ls, s, τ, hr, by decide, of_decide_eq_true hst, by decide⟩

end Pending
end EpollChat
