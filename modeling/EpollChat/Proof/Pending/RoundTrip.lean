import EpollChat.Proof.Pending.Kept

/-!
# Whether a payload comes back as it was stored

`storePendingMessage` sends its arguments with their lengths. What reads them back does not:
`retryLoop` assigns `item->str`, `fetchPendingMessages` formats its keys with `%s` and takes
`payload->str`. So the name and the text are cut at their first NUL, and the protobuf decoder
lets a client put one into either.
-/

namespace EpollChat
namespace Pending

open Lib Machine

/-- The text `json` stored for `u` under the id `i` comes back: `u` is a name `retryLoop` reads
    from `chat:pending_users`, the id is one it finds in the schedule of that name, and the
    string `fetchPendingMessages` adds to its result for that id is `json`. -/
structure RoundTrips (r : Redis) (u i json : Bytes) : Prop where
  name : u ∈ r.pendingUsers.map cStr
  listed : i ∈ (r.tables (cStr u)).schedule.members.map cStr
  text : ∀ call includeAll ids msgs now,
    (dispatchStep r ⟨call, u, includeAll, .fetch (i :: ids) msgs⟩ now).1
      = some (.fetch ids (msgs ++ [json]))

theorem roundTrips_iff {r : Redis} {u i json : Bytes} (hp : (r.tables u).payload i = some json)
    (hs : i ∈ (r.tables u).schedule.members) (hi : cStr i = i) (hu : u ∈ r.pendingUsers) :
    RoundTrips r u i json ↔ 0 ∉ u ∧ 0 ∉ json := by
  constructor
  · intro h
    obtain ⟨v, -, hv⟩ := List.mem_map.mp h.name
    have hnul : 0 ∉ u := by
      rw [← hv]
      exact zero_not_mem_cStr v
    have htext := h.text 0 false [] [] 0
    simp only [dispatchStep, cStr_eq_self_iff.mpr hnul, hp, Option.some.injEq, Phase.fetch.injEq,
      List.nil_append, List.cons.injEq, and_true, true_and] at htext
    exact ⟨hnul, cStr_eq_self_iff.mp htext⟩
  · rintro ⟨hnul, hjson⟩
    have hcu : cStr u = u := cStr_eq_self_iff.mpr hnul
    refine ⟨List.mem_map.mpr ⟨u, hu, hcu⟩, ?_, ?_⟩
    · rw [hcu]
      exact List.mem_map.mpr ⟨i, hs, hi⟩
    · intro call includeAll ids msgs now
      simp only [dispatchStep, hcu, hp, cStr_eq_self_iff.mpr hjson]

/-- **A payload comes back byte for byte exactly if neither the name nor the text has a NUL in
    it**: right after `storePendingMessage` has accepted it, whatever the tables held before, and
    in every later state of every run until it is acknowledged. -/
theorem payload_round_trips_iff {target json : Bytes} {id : UInt64} :
    (∀ {s s' tid now}, store s tid target id json now = some (s', [.stored target id json]) →
      (RoundTrips s'.redis target (toDecimal (effectiveId id json)) json ↔ 0 ∉ target ∧ 0 ∉ json)) ∧
    ∀ {ls s τ}, run step {} ls = some (s, τ) → .stored target id json ∈ τ →
      (∀ ids, .acked target ids ∈ τ → id ∉ ids) →
      (RoundTrips s.redis target (idStr id) json ↔ 0 ∉ target ∧ 0 ∉ json) := by
  refine ⟨?_, ?_⟩
  · intro s s' tid now h
    unfold store at h
    split at h
    · simp at h
    · split at h
      · exact absurd h (by simp)
      · simp only [Option.some.injEq, Prod.mk.injEq, and_true] at h
        rw [← h]
        refine roundTrips_iff ?_ ?_ (cStr_toDecimal _) ?_
        · show ((s.redis.storeScript ..).tables target).payload _ = _
          rw [Redis.storeScript_tables, if_pos rfl]
          exact Function.update_self ..
        · show _ ∈ ((s.redis.storeScript ..).tables target).schedule.members
          rw [Redis.storeScript_tables, if_pos rfl]
          exact SortedSet.mem_members_zadd.mpr (Or.inl rfl)
        · simp only [setThread, Redis.storeScript]
          split
          · assumption
          · exact List.mem_cons_self
  · intro ls s τ hr hst hna
    obtain ⟨hp, hs, -, hu⟩ := (Base.run hr).tables.kept hst hna
    exact roundTrips_iff hp hs (cStr_toDecimal _) hu

/-- Message 7 of alice to bob. -/
def oneStored (content : Bytes) : List Label :=
  [.privateSend 0 (ascii "alice") (ascii "bob") content (ascii "12:00") 7, .move 0 1000 false]

/-- A message of two letters comes back. -/
theorem payload_round_trips_hi : ∃ s τ json, run step {} (oneStored (ascii "hi")) = some (s, τ) ∧
    .stored (ascii "bob") 7 json ∈ τ ∧ RoundTrips s.redis (ascii "bob") (idStr 7) json := by
  let json := buildEnrichedChatBodyWithMsgId 7 (ascii "alice") (ascii "bob") (ascii "hi") (ascii "12:00")
  have hτ : (run step {} (oneStored (ascii "hi"))).map Prod.snd
      = some [.stored (ascii "bob") 7 json] := rfl
  obtain ⟨⟨s, τ⟩, hr, hsnd⟩ := Option.map_eq_some_iff.mp hτ
  dsimp only at hsnd
  subst hsnd
  refine ⟨s, _, json, hr, List.mem_cons_self, ?_⟩
  exact (payload_round_trips_iff.2 hr List.mem_cons_self (by simp)).mpr (by decide)

/-- A NUL between two letters: what comes back ends there. -/
theorem payload_cut : ∃ ls s τ u id json, run step {} ls = some (s, τ) ∧ .stored u id json ∈ τ ∧
    (∀ ids, .acked u ids ∉ τ) ∧ ¬ RoundTrips s.redis u (idStr id) json := by
  let json := buildEnrichedChatBodyWithMsgId 7 (ascii "alice") (ascii "bob") [97, 0, 98] (ascii "12:00")
  have hτ : (run step {} (oneStored [97, 0, 98])).map Prod.snd
      = some [.stored (ascii "bob") 7 json] := rfl
  obtain ⟨⟨s, τ⟩, hr, hsnd⟩ := Option.map_eq_some_iff.mp hτ
  dsimp only at hsnd
  subst hsnd
  refine ⟨_, s, _, ascii "bob", 7, json, hr, List.mem_cons_self, by simp, ?_⟩
  obtain ⟨hp, hs, -, hu⟩ := (Base.run hr).tables.kept List.mem_cons_self (by simp)
  rw [roundTrips_iff hp hs (cStr_toDecimal _) hu]
  decide

end Pending
end EpollChat
