import EpollChat.Proof.Wire.ChatBody

/-!
# The chat packets the server sends

`buildEnrichedChatBodyWithMsgId` renders the five fields of a chat message and
`encodeJsonToProto` finds each of them again by searching the text for its quoted name. The
number comes first and is never mistaken for a name; but the sender stands before `target`,
the sender and the target before `message`, and all three before `timestamp`, so a sender who
is called `message` has his target sent as the message.
-/

namespace EpollChat

open Pb

/-! ## 1. What `get` finds -/

def enrichedMembers (n : Nat) (s t m ts : Bytes) : List (Bytes × Bytes) :=
  [(ascii "msg_id", toDecimal n), (ascii "sender", s), (ascii "target", t), (ascii "message", m),
    (ascii "timestamp", ts)]

theorem clean_enriched {n : Nat} {s t m ts : Bytes} (hs : Quotable s) (ht : Quotable t) (hm : Quotable m)
    (hts : Quotable ts) : Clean (enrichedMembers n s t m ts) := by
  intro p hp
  simp only [enrichedMembers, List.mem_cons, List.not_mem_nil, or_false] at hp
  rcases hp with rfl | rfl | rfl | rfl | rfl
  · exact ⟨show IsKey (ascii "msg_id") by decide, not_mem_toDecimal (by decide) n,
      getLast?_ne_backslash (not_mem_toDecimal (by decide) n)⟩
  · exact ⟨show IsKey (ascii "sender") by decide, hs.no_quote, hs.last⟩
  · exact ⟨show IsKey (ascii "target") by decide, ht.no_quote, ht.last⟩
  · exact ⟨show IsKey (ascii "message") by decide, hm.no_quote, hm.last⟩
  · exact ⟨show IsKey (ascii "timestamp") by decide, hts.no_quote, hts.last⟩

/-- The `timestamp` the encoder writes. -/
def encodedTimestamp (s t m ts : Bytes) : Bytes :=
  if ascii "timestamp" = s then trimValue t
  else if ascii "timestamp" = t then trimValue m
  else if ascii "timestamp" = m then trimValue ts else ts

/-- A name is looked for behind the number, which is not a name. -/
theorem getLookup_enriched {key : Bytes} (n : Nat) (s t m ts : Bytes) (hid : key ≠ ascii "msg_id")
    (hdigit : key.all isDigit = false) : getLookup key (enrichedMembers n s t m ts)
      = getLookup key [(ascii "sender", s), (ascii "target", t), (ascii "message", m), (ascii "timestamp", ts)] := by
  have hnum : key ≠ toDecimal n := ne_of_not_digit hdigit fun b hb => isDigit_of_mem_toDecimal hb
  rw [enrichedMembers, getLookup, if_neg hid, if_neg hnum]

theorem getLookup_sender (n : Nat) (s t m ts : Bytes) :
    getLookup (ascii "sender") (enrichedMembers n s t m ts) = s := by
  rw [getLookup_enriched n s t m ts (by decide) (by decide), getLookup, if_pos rfl]

theorem getLookup_target (n : Nat) (s t m ts : Bytes) :
    getLookup (ascii "target") (enrichedMembers n s t m ts) = encodedTarget s t := by
  rw [getLookup_enriched n s t m ts (by decide) (by decide), getLookup,
    if_neg (show ascii "target" ≠ ascii "sender" by decide), getLookup, if_pos rfl]
  rfl

theorem getLookup_message (n : Nat) (s t m ts : Bytes) :
    getLookup (ascii "message") (enrichedMembers n s t m ts) = encodedMessage s t m := by
  rw [getLookup_enriched n s t m ts (by decide) (by decide), getLookup,
    if_neg (show ascii "message" ≠ ascii "sender" by decide), getLookup,
    if_neg (show ascii "message" ≠ ascii "target" by decide), getLookup, if_pos rfl]
  rfl

theorem getLookup_timestamp (n : Nat) (s t m ts : Bytes) :
    getLookup (ascii "timestamp") (enrichedMembers n s t m ts) = encodedTimestamp s t m ts := by
  rw [getLookup_enriched n s t m ts (by decide) (by decide), getLookup,
    if_neg (show ascii "timestamp" ≠ ascii "sender" by decide), getLookup,
    if_neg (show ascii "timestamp" ≠ ascii "target" by decide), getLookup,
    if_neg (show ascii "timestamp" ≠ ascii "message" by decide), getLookup, if_pos rfl]
  rfl

/-- **What is sent for an enriched chat body.** -/
theorem encode_enriched {n : Nat} {s t m ts : Bytes} (hn : n < 2 ^ 64) (hs : Quotable s) (ht : Quotable t)
    (hm : Quotable m) (hts : Quotable ts) :
    encodeJsonToProto 1 (buildEnrichedChatBodyWithMsgId n s t m ts)
      = chatBody s (encodedTarget s t) (encodedMessage s t m) n (encodedTimestamp s t m ts) := by
  have hne : objectText (enrichedMembers n s t m ts) ≠ [] := by
    simp [enrichedMembers, objectText, membersFrom]
  have hget : ∀ {key : Bytes}, IsKey key → getField (objectText (enrichedMembers n s t m ts)) key
      = getLookup key (enrichedMembers n s t m ts) :=
    fun hk => getField_objectText hk (clean_enriched hs ht hm hts)
  have hid : parseUint64Safe (getLookup (ascii "msg_id") (enrichedMembers n s t m ts)) = n := by
    rw [enrichedMembers, getLookup, if_pos rfl, parseUint64Safe_toDecimal, Nat.mod_eq_of_lt hn]
  show encodeJsonToProto 1 (objectText (enrichedMembers n s t m ts)) = _
  rw [encodeJsonToProto_chat hne, hget (by decide), hget (by decide), hget (by decide), hget (by decide),
    hget (by decide), hid, getLookup_sender, getLookup_target, getLookup_message, getLookup_timestamp]

/-! ## 2. When it is what was meant -/

/-- No field is read in the place of another, or what is read there is the same. -/
structure ReadsBack (s t m ts : Bytes) : Prop where
  sender_target : s = ascii "target" → Plain t
  sender_message : s = ascii "message" → trimValue t = m
  target_message : s ≠ ascii "message" → t = ascii "message" → Plain m
  sender_timestamp : s = ascii "timestamp" → trimValue t = ts
  target_timestamp : s ≠ ascii "timestamp" → t = ascii "timestamp" → trimValue m = ts
  message_timestamp : s ≠ ascii "timestamp" → t ≠ ascii "timestamp" → m = ascii "timestamp" → Plain ts

theorem encodedTarget_eq_iff {s t : Bytes} :
    encodedTarget s t = t ↔ (s = ascii "target" → Plain t) := by
  unfold encodedTarget
  split
  · next h => exact plain_iff.trans ⟨fun hp _ => hp, fun hp => hp h.symm⟩
  · next h => exact ⟨fun _ hs => absurd hs.symm h, fun _ => rfl⟩

theorem encodedMessage_eq_iff {s t m : Bytes} : encodedMessage s t m = m ↔
    (s = ascii "message" → trimValue t = m) ∧ (s ≠ ascii "message" → t = ascii "message" → Plain m) := by
  unfold encodedMessage
  split
  · next h => exact ⟨fun heq => ⟨fun _ => heq, fun hne => absurd h.symm hne⟩, fun hc => hc.1 h.symm⟩
  · next h =>
    have hs : s ≠ ascii "message" := fun hs => h hs.symm
    split
    · next ht =>
      exact plain_iff.trans ⟨fun hp => ⟨fun hs' => absurd hs' hs, fun _ _ => hp⟩, fun hc => hc.2 hs ht.symm⟩
    · next ht =>
      exact ⟨fun _ => ⟨fun hs' => absurd hs' hs, fun _ ht' => absurd ht'.symm ht⟩, fun _ => rfl⟩

theorem encodedTimestamp_eq_iff {s t m ts : Bytes} : encodedTimestamp s t m ts = ts ↔
    (s = ascii "timestamp" → trimValue t = ts) ∧
    (s ≠ ascii "timestamp" → t = ascii "timestamp" → trimValue m = ts) ∧
    (s ≠ ascii "timestamp" → t ≠ ascii "timestamp" → m = ascii "timestamp" → Plain ts) := by
  unfold encodedTimestamp
  split
  · next h =>
    exact ⟨fun heq => ⟨fun _ => heq, fun hne => absurd h.symm hne, fun hne => absurd h.symm hne⟩,
      fun hc => hc.1 h.symm⟩
  · next h =>
    have hs : s ≠ ascii "timestamp" := fun hs => h hs.symm
    split
    · next ht =>
      exact ⟨fun heq => ⟨fun hs' => absurd hs' hs, fun _ _ => heq, fun _ hne => absurd ht.symm hne⟩,
        fun hc => hc.2.1 hs ht.symm⟩
    · next ht =>
      have ht : t ≠ ascii "timestamp" := fun h' => ht h'.symm
      split
      · next hm =>
        exact plain_iff.trans ⟨fun hp => ⟨fun hs' => absurd hs' hs, fun _ ht' => absurd ht' ht,
          fun _ _ _ => hp⟩, fun hc => hc.2.2 hs ht hm.symm⟩
      · next hm =>
        exact ⟨fun _ => ⟨fun hs' => absurd hs' hs, fun _ ht' => absurd ht' ht,
          fun _ _ hm' => absurd hm'.symm hm⟩, fun _ => rfl⟩

theorem readsBack_iff {s t m ts : Bytes} : ReadsBack s t m ts ↔
    encodedTarget s t = t ∧ encodedMessage s t m = m ∧ encodedTimestamp s t m ts = ts := by
  rw [encodedTarget_eq_iff, encodedMessage_eq_iff, encodedTimestamp_eq_iff]
  constructor
  · rintro ⟨h₁, h₂, h₃, h₄, h₅, h₆⟩
    exact ⟨h₁, ⟨h₂, h₃⟩, h₄, h₅, h₆⟩
  · rintro ⟨h₁, ⟨h₂, h₃⟩, h₄, h₅, h₆⟩
    exact ⟨h₁, h₂, h₃, h₄, h₅, h₆⟩

theorem length_encodedTimestamp_le (s t m ts : Bytes) :
    (encodedTimestamp s t m ts).length ≤ t.length + m.length + ts.length := by
  have h₁ := length_trimValue_le t
  have h₂ := length_trimValue_le m
  have h₃ := length_trimValue_le ts
  unfold encodedTimestamp
  split
  · omega
  · split
    · omega
    · split <;> omega

theorem length_enriched (n : Nat) (s t m ts : Bytes) :
    s.length + t.length + m.length + ts.length ≤ (buildEnrichedChatBodyWithMsgId n s t m ts).length := by
  simp only [buildEnrichedChatBodyWithMsgId, objectText, membersFrom, memberText, quoted, List.length_cons,
    List.length_append]
  omega

/-- **A chat packet carries the right fields exactly if none is read in the place of another.** -/
theorem chat_packet_fields_iff {n : Nat} {s t m ts : Bytes} (hn : n < 2 ^ 64)
    (hs : Quotable s) (ht : Quotable t) (hm : Quotable m) (hts : Quotable ts)
    (hmax : (buildEnrichedChatBodyWithMsgId n s t m ts).length ≤ stringMax) :
    encodeJsonToProto 1 (buildEnrichedChatBodyWithMsgId n s t m ts) = chatBody s t m n ts ↔
      ReadsBack s t m ts := by
  have hlen := length_enriched n s t m ts
  have h₁ := length_encodedTarget_le s t
  have h₂ := length_encodedMessage_le s t m
  have h₃ := length_encodedTimestamp_le s t m ts
  unfold stringMax at hmax
  rw [encode_enriched hn hs ht hm hts, readsBack_iff]
  constructor
  · intro h
    obtain ⟨-, htarget, hmessage, -, htime⟩ := chatBody_inj hn hn (by unfold wordSize; omega)
      (by unfold wordSize; omega) h
    exact ⟨htarget, hmessage, htime⟩
  · rintro ⟨htarget, hmessage, htime⟩
    rw [htarget, hmessage, htime]

/-- A sender called `target` does no harm to a target without commas. -/
theorem chat_packet_fields_target :
    encodeJsonToProto 1 (buildEnrichedChatBodyWithMsgId 7 (ascii "target") (ascii "bob") (ascii "hi, bob")
      (ascii "2024-01-01 08:00:00"))
      = chatBody (ascii "target") (ascii "bob") (ascii "hi, bob") 7 (ascii "2024-01-01 08:00:00") :=
  (chat_packet_fields_iff (by decide) ⟨by decide, by decide⟩ ⟨by decide, by decide⟩
    ⟨by decide, by decide⟩ ⟨by decide, by decide⟩ (by decide)).mpr
      ⟨by decide, by decide, by decide, by decide, by decide, by decide⟩

/-- A sender called `message`: the message sent is the name of the target. -/
theorem chat_packet_message_lost :
    encodeJsonToProto 1 (buildEnrichedChatBodyWithMsgId 7 (ascii "message") (ascii "bob") (ascii "hi")
      (ascii "2024-01-01 08:00:00"))
      = chatBody (ascii "message") (ascii "bob") (ascii "bob") 7 (ascii "2024-01-01 08:00:00") ∧
    encodeJsonToProto 1 (buildEnrichedChatBodyWithMsgId 7 (ascii "message") (ascii "bob") (ascii "hi")
      (ascii "2024-01-01 08:00:00"))
      ≠ chatBody (ascii "message") (ascii "bob") (ascii "hi") 7 (ascii "2024-01-01 08:00:00") := by
  have hsent : encodeJsonToProto 1 (buildEnrichedChatBodyWithMsgId 7 (ascii "message") (ascii "bob")
      (ascii "hi") (ascii "2024-01-01 08:00:00")) = _ :=
    encode_enriched (by decide) ⟨by decide, by decide⟩ ⟨by decide, by decide⟩ ⟨by decide, by decide⟩
      ⟨by decide, by decide⟩
  refine ⟨hsent, ?_⟩
  rw [hsent]
  decide

end EpollChat
