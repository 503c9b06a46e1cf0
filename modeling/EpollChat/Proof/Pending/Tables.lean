import EpollChat.Pending.Tasks
import EpollChat.Proof.Wire.ChatBody
import Mathlib.Data.List.TakeWhile

/-!
# What the commands do to the tables

Membership in a sorted set, and in the three tables after each script. The last section
is about the text of a stored message: whatever its sender, target and content are, and
even if it is cut at a NUL, the id `extractJsonValue` finds in it is the one it was built
with.
-/

namespace EpollChat

open Lib

/-! ## 1. Sorted sets -/

namespace SortedSet

theorem mem_members_zrem {z : SortedSet} {m i : Bytes} :
    i ∈ (zrem z m).members ↔ i ∈ z.members ∧ i ≠ m := by
  unfold members zrem
  constructor
  · intro h
    obtain ⟨e, he, rfl⟩ := List.mem_map.mp h
    obtain ⟨hz, hne⟩ := List.mem_filter.mp he
    exact ⟨List.mem_map_of_mem hz, by simpa using hne⟩
  · rintro ⟨h, hne⟩
    obtain ⟨e, he, rfl⟩ := List.mem_map.mp h
    exact List.mem_map_of_mem (List.mem_filter.mpr ⟨he, by simpa using hne⟩)

theorem mem_members_zadd {z : SortedSet} {score : Int} {m i : Bytes} :
    i ∈ (zadd z score m).members ↔ i = m ∨ i ∈ z.members := by
  have h : i ∈ (zadd z score m).members ↔ i = m ∨ i ∈ (zrem z m).members := by
    unfold zadd members
    rw [((List.perm_orderedInsert entryLe (score, m) (zrem z m)).map (·.2)).mem_iff, List.map_cons,
      List.mem_cons]
  rw [h, mem_members_zrem]
  constructor
  · rintro (h | ⟨h, -⟩)
    · exact Or.inl h
    · exact Or.inr h
  · rintro (h | h)
    · exact Or.inl h
    · by_cases hm : i = m
      · exact Or.inl hm
      · exact Or.inr ⟨h, hm⟩

theorem nodup_zrem {z : SortedSet} (h : z.members.Nodup) (m : Bytes) : (zrem z m).members.Nodup :=
  h.sublist (List.filter_sublist.map _)

theorem nodup_zadd {z : SortedSet} (h : z.members.Nodup) (score : Int) (m : Bytes) :
    (zadd z score m).members.Nodup := by
  have hperm := (List.perm_orderedInsert entryLe (score, m) (zrem z m)).map (·.2)
  refine hperm.nodup_iff.mpr ?_
  rw [List.map_cons, List.nodup_cons]
  exact ⟨fun hm => (mem_members_zrem.mp hm).2 rfl, nodup_zrem h m⟩

theorem zrange_sublist (z : SortedSet) (limit : Nat) : (z.zrange limit).Sublist z.members :=
  (List.take_sublist _ _).map _

theorem zrangebyscore_sublist (z : SortedSet) (now : Int) (limit : Nat) :
    (z.zrangebyscore now limit).Sublist z.members :=
  ((List.take_sublist _ _).trans List.filter_sublist).map _

end SortedSet

/-! ## 2. Scripts -/

namespace Redis

@[simp] theorem modify_same (r : Redis) (u : Bytes) (f : PendingTables → PendingTables) :
    (r.modify u f).tables u = f (r.tables u) := Function.update_self ..

theorem modify_other (r : Redis) {u u' : Bytes} (f : PendingTables → PendingTables) (h : u' ≠ u) :
    (r.modify u f).tables u' = r.tables u' := Function.update_of_ne h ..

theorem modify_apply (r : Redis) (u u' : Bytes) (f : PendingTables → PendingTables) :
    (r.modify u f).tables u' = if u' = u then f (r.tables u') else r.tables u' := by
  split
  · next h => rw [h, modify_same]
  · next h => exact modify_other r f h

theorem storeScript_tables (r : Redis) (u i json : Bytes) (due : Int) (v : Bytes) :
    (r.storeScript u i json due).tables v = if v = u then
        { payload := Function.update (r.tables v).payload i (some json)
          schedule := (r.tables v).schedule.zadd due i
          attempts := Function.update (r.tables v).attempts i (some 0) }
      else r.tables v :=
  modify_apply r u v fun t =>
    { payload := Function.update t.payload i (some json)
      schedule := t.schedule.zadd due i
      attempts := Function.update t.attempts i (some 0) }

theorem foldl_ackOne : ∀ (ids : List Bytes) (t : PendingTables) (i : Bytes),
    ((ids.foldl ackOne t).payload i = if i ∈ ids then none else t.payload i) ∧
      ((ids.foldl ackOne t).attempts i = if i ∈ ids then none else t.attempts i) ∧
      (i ∈ (ids.foldl ackOne t).schedule.members ↔ i ∈ t.schedule.members ∧ i ∉ ids)
  | [], t, i => by simp
  | id :: ids, t, i => by
    obtain ⟨hp, ha, hs⟩ := foldl_ackOne ids (ackOne t id) i
    rw [List.foldl_cons]
    by_cases hid : i = id
    · subst hid
      refine ⟨?_, ?_, ?_⟩
      · rw [hp, if_pos List.mem_cons_self]
        split
        · rfl
        · exact Function.update_self ..
      · rw [ha, if_pos List.mem_cons_self]
        split
        · rfl
        · exact Function.update_self ..
      · rw [hs]
        constructor
        · rintro ⟨h, -⟩
          exact absurd rfl (SortedSet.mem_members_zrem.mp h).2
        · rintro ⟨-, h⟩
          exact absurd List.mem_cons_self h
    · have hmem : i ∈ id :: ids ↔ i ∈ ids := by simp [hid]
      refine ⟨?_, ?_, ?_⟩
      · simp only [hp, hmem]
        rw [show (ackOne t id).payload i = t.payload i from Function.update_of_ne hid ..]
      · simp only [ha, hmem]
        rw [show (ackOne t id).attempts i = t.attempts i from Function.update_of_ne hid ..]
      · rw [hs, hmem]
        exact and_congr_left fun _ => ⟨fun h => (SortedSet.mem_members_zrem.mp h).1,
          fun h => SortedSet.mem_members_zrem.mpr ⟨h, hid⟩⟩

theorem nodup_foldl_ackOne : ∀ (ids : List Bytes) {t : PendingTables}, t.schedule.members.Nodup →
    (ids.foldl ackOne t).schedule.members.Nodup
  | [], _, h => h
  | id :: ids, _, h => nodup_foldl_ackOne ids (SortedSet.nodup_zrem h id)

theorem ackScript_payload (r : Redis) (u : Bytes) (ids : List Bytes) (i : Bytes) :
    ((r.ackScript u ids).tables u).payload i = if i ∈ ids then none else (r.tables u).payload i := by
  rw [ackScript, modify_same]
  exact (foldl_ackOne ids _ i).1

theorem ackScript_attempts (r : Redis) (u : Bytes) (ids : List Bytes) (i : Bytes) :
    ((r.ackScript u ids).tables u).attempts i
      = if i ∈ ids then none else (r.tables u).attempts i := by
  rw [ackScript, modify_same]
  exact (foldl_ackOne ids _ i).2.1

theorem ackScript_schedule (r : Redis) (u : Bytes) (ids : List Bytes) (i : Bytes) :
    i ∈ ((r.ackScript u ids).tables u).schedule.members
      ↔ i ∈ (r.tables u).schedule.members ∧ i ∉ ids := by
  rw [ackScript, modify_same]
  exact (foldl_ackOne ids _ i).2.2

end Redis

/-! ## 3. Message ids -/

/-- The field name of a message. -/
def idStr (id : UInt64) : Bytes := toDecimal id.toNat

theorem idStr_inj {a b : UInt64} (h : idStr a = idStr b) : a = b := by
  have h' := congrArg parseUint64Safe h
  unfold idStr at h'
  rw [parseUint64Safe_toDecimal, parseUint64Safe_toDecimal, Nat.mod_eq_of_lt a.toNat_lt,
    Nat.mod_eq_of_lt b.toNat_lt] at h'
  exact UInt64.toNat_inj.mp h'

theorem cStr_toDecimal (n : Nat) : cStr (toDecimal n) = toDecimal n := by
  unfold cStr
  rw [List.takeWhile_eq_self_iff]
  intro b hb
  have h := isDigit_of_mem_toDecimal hb
  have hne : b ≠ 0 := by
    rintro rfl
    exact absurd h (by decide)
  simpa using hne

/-! ## 4. The id in a stored message -/

/-- Everything up to the id of a stored message. -/
def messageHead (n : Nat) : Bytes :=
  openBrace :: (quoted (ascii "msg_id") ++ (colon :: quoted (toDecimal n)))

/-- Every scanner finds the key at the head first. -/
theorem seek_messageHead (n : Nat) (rest : Bytes) :
    seek (quoted (ascii "msg_id")) (messageHead n ++ rest)
      = some (quoted (ascii "msg_id") ++ (colon :: (quoted (toDecimal n) ++ rest))) := by
  have hsplit : messageHead n ++ rest
      = [openBrace] ++ (quoted (ascii "msg_id") ++ (colon :: (quoted (toDecimal n) ++ rest))) := by
    simp [messageHead]
  rw [hsplit]
  exact (seek_append_of_not_mem (by decide)).trans (seek_found (List.prefix_append _ _))

theorem extractJsonValue_messageHead (n : Nat) (rest : Bytes) :
    extractJsonValue (messageHead n ++ rest) (ascii "msg_id") = toDecimal n := by
  have hcolon : seek [colon] (quoted (ascii "msg_id") ++ (colon :: (quoted (toDecimal n) ++ rest)))
      = some (colon :: (quoted (toDecimal n) ++ rest)) := seek_singleton (by decide)
  rw [extractJsonValue, seek_messageHead]
  dsimp only
  rw [hcolon]
  exact valueAfterColon_plain (toDecimal_ne_nil n) (plain_toDecimal n) (not_mem_toDecimal (by decide) n) rest

theorem getField_messageHead (n : Nat) (rest : Bytes) :
    getField (messageHead n ++ rest) (ascii "msg_id") = toDecimal n := by
  have hquote : quote ∉ toDecimal n := not_mem_toDecimal (by decide) n
  have hlast : (toDecimal n).getLast? ≠ some backslash := fun h =>
    not_mem_toDecimal (by decide) n (List.mem_of_getLast? h)
  have hdrop : (quoted (ascii "msg_id") ++ (colon :: (quoted (toDecimal n) ++ rest))).drop
      ((ascii "msg_id").length + 2) = colon :: (quoted (toDecimal n) ++ rest) := by
    rw [← length_quoted]
    exact List.drop_left
  have hfast : extractJsonStringFast (messageHead n ++ rest) (ascii "msg_id") = some (toDecimal n) := by
    rw [extractJsonStringFast_eq (by decide), seek_messageHead]
    dsimp only
    rw [hdrop]
    exact stringAfterKey_member rest hquote hlast
  rw [getField, hfast, Option.getD_some]
  exact if_neg (toDecimal_ne_nil n)

/-- The text of a stored message. -/
def IsMessage (id : UInt64) (json : Bytes) : Prop :=
  ∃ sender target content ts, json = buildEnrichedChatBodyWithMsgId id.toNat sender target content ts

theorem IsMessage.head {id : UInt64} {json : Bytes} (h : IsMessage id json) :
    ∃ rest, json = messageHead id.toNat ++ rest := by
  obtain ⟨sender, target, content, ts, rfl⟩ := h
  exact ⟨membersFrom comma [(ascii "sender", sender), (ascii "target", target),
    (ascii "message", content), (ascii "timestamp", ts)], rfl⟩

/-- The id stands before anything a client wrote, and so before any NUL. -/
theorem IsMessage.head_cStr {id : UInt64} {json : Bytes} (h : IsMessage id json) :
    ∃ rest, cStr json = messageHead id.toNat ++ rest := by
  obtain ⟨rest, rfl⟩ := h.head
  have hzero : ∀ b ∈ messageHead id.toNat, (b != 0) = true := by
    intro b hb
    have hne : b ≠ 0 := by
      rintro rfl
      simp only [messageHead, quoted, List.mem_cons, List.mem_append] at hb
      rcases hb with hb | (hb | hb | hb) | hb | hb | hb | hb
      · exact absurd hb (by decide)
      · exact absurd hb (by decide)
      · exact absurd hb (by decide)
      · exact absurd hb (by decide)
      · exact absurd hb (by decide)
      · exact absurd hb (by decide)
      · exact not_mem_toDecimal (by decide) _ hb
      · exact absurd hb (by decide)
    simpa using hne
  exact ⟨cStr rest, by rw [cStr, List.takeWhile_append_of_pos hzero]; rfl⟩

/-- **A message keeps its id**, even cut at a NUL. -/
theorem IsMessage.extract_cStr {id : UInt64} {json : Bytes} (h : IsMessage id json) :
    extractJsonValue (cStr json) (ascii "msg_id") = idStr id := by
  obtain ⟨rest, hrest⟩ := h.head_cStr
  rw [hrest]
  exact extractJsonValue_messageHead _ _

theorem IsMessage.extract {id : UInt64} {json : Bytes} (h : IsMessage id json) :
    extractJsonValue json (ascii "msg_id") = idStr id := by
  obtain ⟨rest, rfl⟩ := h.head
  exact extractJsonValue_messageHead _ _

theorem IsMessage.ne_nil {id : UInt64} {json : Bytes} (h : IsMessage id json) : json ≠ [] := by
  obtain ⟨rest, rfl⟩ := h.head
  simp [messageHead]

/-- `storePendingMessage` files a message under its own id, and takes none with id 0. -/
theorem effectiveId_eq {id : UInt64} {json : Bytes} (h : IsMessage id json) :
    Pending.effectiveId id json = id.toNat := by
  unfold Pending.effectiveId
  split
  · next h0 =>
    subst h0
    rw [h.extract]
    rfl
  · rfl

end EpollChat
