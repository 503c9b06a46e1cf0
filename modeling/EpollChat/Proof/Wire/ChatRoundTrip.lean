import EpollChat.Proof.Wire.ChatBody

/-!
# What is left of a chat message after the codec

`encodeJsonToProto(1, ·)` writes the target as field 2; `decodeProtoToJson(1, ·)` files
field 2 under `peer`, which a type-1 object does not render. So the decoded JSON of a
chat message has **no** `target` member, and what the extraction at the head of
`processPacket` then answers for the target is whatever the slow extractor happens to
find behind a *value* that spells `target`.

`chatFields_decoded` computes that answer for every message, and `chat_survives_iff`
reads off when it is the original triple: never by the code's design, only by one of
three coincidences.
-/

namespace EpollChat

open Pb

/-! ## 1. Chat texts -/

theorem clean_chatJson {s t m : Bytes} (hs : ChatText s) (ht : ChatText t) (hm : ChatText m) :
    Clean [(ascii "sender", s), (ascii "target", t), (ascii "message", m)] := by
  intro p hp
  simp only [List.mem_cons, List.not_mem_nil, or_false] at hp
  rcases hp with rfl | rfl | rfl
  · exact ⟨show IsKey (ascii "sender") by decide, hs.quotable.no_quote, hs.quotable.last⟩
  · exact ⟨show IsKey (ascii "target") by decide, ht.quotable.no_quote, ht.quotable.last⟩
  · exact ⟨show IsKey (ascii "message") by decide, hm.quotable.no_quote, hm.quotable.last⟩

/-! ## 2. What the encoder reads -/

/-- The value the slow extractor finds for a key the object does not have: the next
    member's, if some member's value spells the key. -/
def strayValue (key s t m : Bytes) : Bytes :=
  if key = s then trimValue t else if key = t then trimValue m else []

theorem getField_chat_sender {s t m : Bytes} (hs : ChatText s) (ht : ChatText t)
    (hm : ChatText m) : getField (chatJson s t m) (ascii "sender") = s := by
  rw [chatJson, getField_objectText (by decide) (clean_chatJson hs ht hm), getLookup, if_pos rfl]

theorem getField_chat_target {s t m : Bytes} (hs : ChatText s) (ht : ChatText t)
    (hm : ChatText m) : getField (chatJson s t m) (ascii "target") = encodedTarget s t := by
  rw [chatJson, getField_objectText (by decide) (clean_chatJson hs ht hm), getLookup,
    if_neg (show ascii "target" ≠ ascii "sender" by decide), getLookup, if_pos rfl]
  rfl

theorem getField_chat_message {s t m : Bytes} (hs : ChatText s) (ht : ChatText t)
    (hm : ChatText m) : getField (chatJson s t m) (ascii "message") = encodedMessage s t m := by
  rw [chatJson, getField_objectText (by decide) (clean_chatJson hs ht hm), getLookup,
    if_neg (show ascii "message" ≠ ascii "sender" by decide), getLookup,
    if_neg (show ascii "message" ≠ ascii "target" by decide), getLookup, if_pos rfl]
  rfl

/-- The two keys a three-field object lacks. -/
theorem getField_chat_stray {key s t m : Bytes} (hk : IsKey key) (h₁ : key ≠ ascii "sender")
    (h₂ : key ≠ ascii "target") (h₃ : key ≠ ascii "message") (hs : ChatText s) (ht : ChatText t)
    (hm : ChatText m) : getField (chatJson s t m) key = strayValue key s t m := by
  rw [chatJson, getField_objectText hk (clean_chatJson hs ht hm)]
  simp only [getLookup, if_neg h₁, if_neg h₂, if_neg h₃, firstValue, strayValue, ite_self]

/-! ## 3. What the decoder files -/

/-- The decoder's variables after an encoded chat message. -/
def decodedChat (s t m : Bytes) : ProtoFields :=
  { sender := s, peer := encodedTarget s t, message := encodedMessage s t m,
    msgId := parseUint64Safe (strayValue (ascii "msg_id") s t m),
    timestamp := strayValue (ascii "timestamp") s t m }

theorem length_strayValue_le (key s t m : Bytes) :
    (strayValue key s t m).length ≤ t.length + m.length := by
  have h₁ := length_trimValue_le t
  have h₂ := length_trimValue_le m
  unfold strayValue
  split
  · omega
  · split
    · omega
    · simp

theorem length_chatJson (s t m : Bytes) :
    s.length + t.length + m.length ≤ (chatJson s t m).length := by
  simp only [chatJson, objectText, membersFrom, memberText, quoted, List.length_cons,
    List.length_append]
  omega

theorem encode_chat {s t m : Bytes} (hs : ChatText s) (ht : ChatText t) (hm : ChatText m) :
    encodeJsonToProto 1 (chatJson s t m)
      = chatBody s (encodedTarget s t) (encodedMessage s t m)
          (parseUint64Safe (strayValue (ascii "msg_id") s t m)) (strayValue (ascii "timestamp") s t m) := by
  have hj : chatJson s t m ≠ [] := by simp [chatJson, objectText, membersFrom]
  rw [encodeJsonToProto_chat hj, getField_chat_sender hs ht hm,
    getField_chat_target hs ht hm, getField_chat_message hs ht hm,
    getField_chat_stray (by decide) (by decide) (by decide) (by decide) hs ht hm,
    getField_chat_stray (by decide) (by decide) (by decide) (by decide) hs ht hm]

theorem encode_chat_ne_nil {s t m : Bytes} (hs : ChatText s) (ht : ChatText t)
    (hm : ChatText m) : encodeJsonToProto 1 (chatJson s t m) ≠ [] := by
  rw [encode_chat hs ht hm, chatBody]
  exact fun h => putString_ne_nil (by decide) hs.ne_nil (List.append_eq_nil_iff.mp h).1

/-- The field loop on an encoded chat message: five rounds at most, one variable each. -/
theorem decode_chat {s t m : Bytes} (hs : ChatText s) (ht : ChatText t) (hm : ChatText m)
    (hmax : (chatJson s t m).length ≤ stringMax) :
    DecodesTo 1 (encodeJsonToProto 1 (chatJson s t m)) 0 {} (some (decodedChat s t m)) := by
  have h₀ := length_chatJson s t m
  have h₁ := length_encodedTarget_le s t
  have h₂ := length_encodedMessage_le s t m
  have h₃ := length_strayValue_le (ascii "timestamp") s t m
  unfold stringMax at hmax
  rw [encode_chat hs ht hm]
  refine decode_chatBody (parseUint64Safe_lt _) ?_
  unfold wordSize
  omega

/-! ## 4. What the extraction answers -/

/-- The members behind the sender, once decoded. -/
def decodedTail (s t m : Bytes) : List (Bytes × Bytes) :=
  optMember (ascii "message") (encodedMessage s t m) ++
    (optMember (ascii "timestamp") (strayValue (ascii "timestamp") s t m) ++
      optMember (ascii "msg_id") (optDecimal (parseUint64Safe (strayValue (ascii "msg_id") s t m))))

theorem chatMembers_decoded {s t m : Bytes} (hs : s ≠ []) :
    chatMembers (decodedChat s t m) = (ascii "sender", s) :: decodedTail s t m := by
  have hsender : optMember (ascii "sender") s = [(ascii "sender", s)] := by
    rw [optMember, if_neg hs]
  have htarget : optMember (ascii "target") [] = [] := by rw [optMember, if_pos rfl]
  simp only [chatMembers, decodedChat, decodedTail, hsender, htarget, List.nil_append,
    List.singleton_append]

theorem strayValue_subset (key s t m : Bytes) {b : UInt8} (h : b ∈ strayValue key s t m) :
    b ∈ t ∨ b ∈ m := by
  unfold strayValue at h
  split at h
  · exact Or.inl ((trimValue_sublist t).subset h)
  · split at h
    · exact Or.inr ((trimValue_sublist m).subset h)
    · exact absurd h (by simp)

theorem encodedMessage_subset (s t m : Bytes) {b : UInt8} (h : b ∈ encodedMessage s t m) :
    b ∈ t ∨ b ∈ m := by
  unfold encodedMessage at h
  split at h
  · exact Or.inl ((trimValue_sublist t).subset h)
  · split at h
    · exact Or.inr ((trimValue_sublist m).subset h)
    · exact Or.inr h

theorem clean_decoded {s t m : Bytes} (hs : ChatText s) (ht : ChatText t) (hm : ChatText m) :
    Clean ((ascii "sender", s) :: decodedTail s t m) := by
  -- every value is made of bytes of the target and the message
  have hvalue : ∀ v : Bytes, (∀ b ∈ v, b ∈ t ∨ b ∈ m) → Quotable v := by
    intro v hv
    exact ⟨fun h => (hv _ h).elim ht.no_quote hm.no_quote,
      getLast?_ne_backslash fun h => (hv _ h).elim ht.no_backslash hm.no_backslash⟩
  have htail : Clean (decodedTail s t m) := by
    refine Clean.append (clean_optMember (by decide) (hvalue _ ?_)) (Clean.append
      (clean_optMember (by decide) (hvalue _ ?_)) (clean_optMember (by decide) (quotable_optDecimal _)))
    · exact fun b hb => encodedMessage_subset s t m hb
    · exact fun b hb => strayValue_subset _ s t m hb
  intro p hp
  rcases List.mem_cons.mp hp with rfl | hp
  · exact ⟨show IsKey (ascii "sender") by decide, hs.quotable.no_quote, hs.quotable.last⟩
  · exact htail p hp

theorem fastLookup_eq_none_of_keys {key : Bytes} : ∀ {ms : List (Bytes × Bytes)},
    (∀ m ∈ ms, key ≠ m.1) → fastLookup key ms = none := by
  intro ms
  induction ms with
  | nil => intro _; rfl
  | cons m ms ih =>
    intro h
    obtain ⟨k, v⟩ := m
    rw [fastLookup, if_neg (h (k, v) List.mem_cons_self)]
    split
    · rfl
    · exact ih fun m hm => h m (List.mem_cons_of_mem _ hm)

theorem target_not_key {s t m : Bytes} :
    ∀ p ∈ (ascii "sender", s) :: decodedTail s t m, ascii "target" ≠ p.1 := by
  intro p hp
  have hopt : ∀ {k v : Bytes}, ascii "target" ≠ k → p ∈ optMember k v → ascii "target" ≠ p.1 := by
    intro k v hk hm
    rw [(mem_optMember hm).1]
    exact hk
  simp only [decodedTail, List.mem_cons, List.mem_append] at hp
  rcases hp with rfl | hp | hp | hp
  · exact show ascii "target" ≠ ascii "sender" by decide
  · exact hopt (by decide) hp
  · exact hopt (by decide) hp
  · exact hopt (by decide) hp

/-- **The extraction on a decoded chat message**: the fast path never succeeds, because
    no member is called `target`, and the slow path answers with its lookups. -/
theorem chatFields_decoded {s t m : Bytes} (hs : ChatText s) (ht : ChatText t)
    (hm : ChatText m) :
    chatFields (renderJson 1 (decodedChat s t m))
      = (trimValue s, liteLookup (ascii "target") ((ascii "sender", s) :: decodedTail s t m),
          liteLookup (ascii "message") ((ascii "sender", s) :: decodedTail s t m)) := by
  have hclean := clean_decoded hs ht hm
  rw [renderJson_chat, chatMembers_decoded hs.ne_nil]
  have hfast : parseChatFieldsFast (objectText ((ascii "sender", s) :: decodedTail s t m))
      = none := by
    rw [parseChatFieldsFast, extractJsonStringFast_objectText (by decide) hclean,
      extractJsonStringFast_objectText (by decide) hclean,
      fastLookup_eq_none_of_keys target_not_key]
    split <;> rfl
  rw [chatFields, hfast]
  simp only [extractJsonValue_objectText (show IsKey (ascii "sender") by decide) hclean,
    extractJsonValue_objectText (show IsKey (ascii "target") by decide) hclean,
    extractJsonValue_objectText (show IsKey (ascii "message") by decide) hclean]
  rfl

/-! ## 5. Lookups in optional members -/

theorem firstValue_optMember (k v : Bytes) (ms : List (Bytes × Bytes)) :
    firstValue (optMember k v ++ ms) = if v = [] then firstValue ms else trimValue v := by
  unfold optMember
  split <;> rfl

theorem liteLookup_optMember {key k : Bytes} (v : Bytes) (ms : List (Bytes × Bytes))
    (hne : key ≠ []) (hk : key ≠ k) :
    liteLookup key (optMember k v ++ ms) = if key = v then firstValue ms else liteLookup key ms := by
  unfold optMember
  split
  · next h => rw [h, if_neg hne]; rfl
  · rw [List.singleton_append, liteLookup, if_neg hk]

theorem liteLookup_optMember_self (key v : Bytes) (ms : List (Bytes × Bytes)) :
    liteLookup key (optMember key v ++ ms) = if v = [] then liteLookup key ms else trimValue v := by
  unfold optMember
  split
  · rfl
  · rw [List.singleton_append, liteLookup, if_pos rfl]

/-- The first value behind the `message` member. -/
def valueBehindMessage (s t m : Bytes) : Bytes :=
  if strayValue (ascii "timestamp") s t m = []
  then trimValue (optDecimal (parseUint64Safe (strayValue (ascii "msg_id") s t m)))
  else trimValue (strayValue (ascii "timestamp") s t m)

theorem firstValue_last (k v : Bytes) : firstValue (optMember k v) = trimValue v := by
  unfold optMember
  split
  · next h => rw [h]; rfl
  · rfl

theorem firstValue_decodedTail (s t m : Bytes) :
    firstValue (decodedTail s t m) = if encodedMessage s t m = [] then valueBehindMessage s t m
      else trimValue (encodedMessage s t m) := by
  rw [decodedTail, firstValue_optMember, firstValue_optMember, firstValue_last, valueBehindMessage]

theorem liteLookup_target_tail (s t m : Bytes) :
    liteLookup (ascii "target") (decodedTail s t m)
      = if ascii "target" = encodedMessage s t m then valueBehindMessage s t m
        else if ascii "target" = strayValue (ascii "timestamp") s t m
        then trimValue (optDecimal (parseUint64Safe (strayValue (ascii "msg_id") s t m)))
        else [] := by
  have hlast : ∀ n, liteLookup (ascii "target") (optMember (ascii "msg_id") (optDecimal n)) = [] := by
    intro n
    have h := liteLookup_optMember (optDecimal n) []
      (show ascii "target" ≠ [] by decide) (show ascii "target" ≠ ascii "msg_id" by decide)
    rw [List.append_nil, if_neg (ne_of_not_digit (by decide) fun b hb => isDigit_of_mem_optDecimal hb)] at h
    exact h
  rw [decodedTail, liteLookup_optMember _ _ (by decide) (by decide),
    liteLookup_optMember _ _ (by decide) (by decide), firstValue_optMember, firstValue_last,
    hlast, valueBehindMessage]

theorem liteLookup_message_decoded {s t m : Bytes} (h : encodedMessage s t m ≠ []) :
    liteLookup (ascii "message") ((ascii "sender", s) :: decodedTail s t m)
      = trimValue (encodedMessage s t m) := by
  rw [liteLookup, if_neg (show ascii "message" ≠ ascii "sender" by decide)]
  split
  · rw [firstValue_decodedTail, if_neg h]
  · rw [decodedTail, liteLookup_optMember_self, if_neg h]

/-! ## 6. When the message survives -/

/-- The type-1 body of the three fields, decoded and read again, gives the three fields
    back. -/
def chatSurvives (s t m : Bytes) : Prop :=
  ∃ fuel json, decodeProtoToJson fuel 1 (encodeJsonToProto 1 (chatJson s t m)) = some json ∧
    chatFields json = (s, t, m)

/-- The target the extraction answers. -/
def answeredTarget (s t m : Bytes) : Bytes :=
  if ascii "target" = s then firstValue (decodedTail s t m)
  else liteLookup (ascii "target") (decodedTail s t m)

theorem chatSurvives_iff_answers {s t m : Bytes} (hs : ChatText s) (ht : ChatText t)
    (hm : ChatText m) (hmax : (chatJson s t m).length ≤ stringMax) :
    chatSurvives s t m ↔ trimValue s = s ∧ answeredTarget s t m = t ∧
      liteLookup (ascii "message") ((ascii "sender", s) :: decodedTail s t m) = m := by
  have hdec := decode_chat hs ht hm hmax
  have htarget : liteLookup (ascii "target") ((ascii "sender", s) :: decodedTail s t m)
      = answeredTarget s t m := by
    rw [liteLookup, if_neg (show ascii "target" ≠ ascii "sender" by decide), answeredTarget]
  have hfields : chatFields (jsonOf 1 (some (decodedChat s t m))) = _ := chatFields_decoded hs ht hm
  rw [htarget] at hfields
  constructor
  · rintro ⟨fuel, json, hj, hf⟩
    rw [(decodeProtoToJson_iff (encode_chat_ne_nil hs ht hm) hdec).mp ⟨fuel, hj⟩, hfields] at hf
    simpa using hf
  · rintro ⟨h₁, h₂, h₃⟩
    obtain ⟨fuel, hj⟩ := (decodeProtoToJson_iff (encode_chat_ne_nil hs ht hm) hdec).mpr rfl
    exact ⟨fuel, _, hj, by rw [hfields, h₁, h₂, h₃]⟩

/-! ## 7. What each message answers -/

theorem target_ne_message : ascii "target" ≠ ascii "message" := by decide
theorem target_ne_timestamp : ascii "target" ≠ ascii "timestamp" := by decide
theorem target_ne_msg_id : ascii "target" ≠ ascii "msg_id" := by decide
theorem message_ne_timestamp : ascii "message" ≠ ascii "timestamp" := by decide
theorem message_ne_msg_id : ascii "message" ≠ ascii "msg_id" := by decide
theorem timestamp_ne_msg_id : ascii "timestamp" ≠ ascii "msg_id" := by decide

/-- A stray value is there only if the sender or the target spells the key. -/
theorem strayValue_of_ne {key s t m : Bytes} (hs : key ≠ s) (ht : key ≠ t) :
    strayValue key s t m = [] := by
  rw [strayValue, if_neg hs, if_neg ht]

theorem strayValue_sender (key t m : Bytes) : strayValue key key t m = trimValue t := by
  rw [strayValue, if_pos rfl]

theorem strayValue_target {key s m : Bytes} (hs : key ≠ s) :
    strayValue key s key m = trimValue m := by
  rw [strayValue, if_neg hs, if_pos rfl]

theorem trimValue_optDecimal (n : Nat) : trimValue (optDecimal n) = optDecimal n := by
  refine trimValue_of_plain ⟨?_, not_mem_optDecimal (by decide) n, not_mem_optDecimal (by decide) n⟩
  intro h
  exact not_mem_optDecimal (b := space) (by decide) n (List.mem_of_mem_head? h)

/-- With no stray value there is no member behind the message. -/
theorem valueBehindMessage_eq_nil {s t m : Bytes}
    (hts : strayValue (ascii "timestamp") s t m = [])
    (hid : parseUint64Safe (strayValue (ascii "msg_id") s t m) = 0) :
    valueBehindMessage s t m = [] := by
  rw [valueBehindMessage, if_pos hts, hid]
  rfl

/-- An object without a `message` member has nothing else behind the sender that the
    extraction could take for the target. -/
theorem answeredTarget_of_no_message {s t m : Bytes} (ht : t ≠ []) (hm : m ≠ [])
    (h : encodedMessage s t m = []) : answeredTarget s t m = [] := by
  unfold encodedMessage at h
  split at h
  · next hs =>
    -- the sender is `message` and the target all blanks or cut at once
    subst hs
    have hkey : ∀ key : Bytes, trimValue key = key → key ≠ ascii "message" →
        strayValue key (ascii "message") t m = [] := by
      intro key hk hne
      refine strayValue_of_ne hne fun hkt => ht ?_
      rw [← hkt, ← hk, hkt]
      exact h
    have hts := hkey (ascii "timestamp") (by decide) message_ne_timestamp.symm
    have hid := hkey (ascii "msg_id") (by decide) message_ne_msg_id.symm
    rw [answeredTarget, if_neg target_ne_message, liteLookup_target_tail, hts, hid,
      valueBehindMessage_eq_nil hts (by rw [hid]; rfl), if_neg (show ascii "target" ≠ [] by decide)]
    split <;> rfl
  · next hs =>
    split at h
    · next hmt =>
      subst hmt
      have hM : encodedMessage s (ascii "message") m = [] := by
        rw [encodedMessage, if_neg hs, if_pos rfl, h]
      have hid : parseUint64Safe (strayValue (ascii "msg_id") s (ascii "message") m) = 0 := by
        unfold strayValue
        split
        · decide
        · rw [if_neg message_ne_msg_id.symm]; rfl
      rw [answeredTarget]
      split
      · next hst =>
        subst hst
        rw [firstValue_decodedTail, if_pos hM]
        exact valueBehindMessage_eq_nil
          (strayValue_of_ne target_ne_timestamp.symm message_ne_timestamp.symm) hid
      · rw [liteLookup_target_tail, hM, if_neg (by decide), hid]
        split <;> rfl
    · exact absurd h hm

/-- The sender is called `target`: the answer is the message. -/
theorem answers_of_sender_target {t m : Bytes} (hm : encodedMessage (ascii "target") t m ≠ []) :
    answeredTarget (ascii "target") t m = trimValue (encodedMessage (ascii "target") t m) := by
  rw [answeredTarget, if_pos rfl, firstValue_decodedTail, if_neg hm]

/-- The message is `target`: the answer is the value behind it. -/
theorem answers_of_message_target {s t m : Bytes} (hs : ascii "target" ≠ s)
    (hm : encodedMessage s t m = ascii "target") :
    answeredTarget s t m = valueBehindMessage s t m := by
  rw [answeredTarget, if_neg hs, liteLookup_target_tail, if_pos hm.symm]

/-- Neither: a `target` timestamp is no help, because no number stands behind it. -/
theorem answers_otherwise {s t m : Bytes} (hs : ascii "target" ≠ s)
    (hm : ascii "target" ≠ encodedMessage s t m) : answeredTarget s t m = [] := by
  rw [answeredTarget, if_neg hs, liteLookup_target_tail, if_neg hm]
  split
  · next hts =>
    have hid : parseUint64Safe (strayValue (ascii "msg_id") s t m) = 0 := by
      unfold strayValue at hts
      split at hts
      · next h =>
        subst h
        by_cases ht : ascii "msg_id" = t
        · subst ht
          exact absurd hts (by decide)
        · rw [strayValue_of_ne timestamp_ne_msg_id.symm ht]; rfl
      · split at hts
        · next h =>
          subst h
          by_cases hs' : ascii "msg_id" = s
          · subst hs'
            rw [strayValue_sender]; decide
          · rw [strayValue_of_ne hs' timestamp_ne_msg_id.symm]; rfl
        · exact absurd hts (by decide)
    rw [hid]
    rfl
  · rfl

/-! ## 8. The three coincidences -/

/-- The messages that survive, each by mistaking a value for a member name. -/
inductive ChatCoincidence : Bytes → Bytes → Bytes → Prop where
  | senderTarget {t : Bytes} (h : Plain t) : ChatCoincidence (ascii "target") t t
  | senderTimestamp {t : Bytes} (h : Plain t) :
      ChatCoincidence (ascii "timestamp") t (ascii "target")
  | senderMsgId {n : Nat} (h₀ : 0 < n) (h : n < 2 ^ 64) :
      ChatCoincidence (ascii "msg_id") (toDecimal n) (ascii "target")

/-- What is behind a message `target` is the target itself only if the sender names the
    member. -/
theorem coincidence_of_behind {s t : Bytes} (ht : ChatText t) (hs : ascii "message" ≠ s)
    (h : valueBehindMessage s t (ascii "target") = t) :
    ChatCoincidence s t (ascii "target") := by
  by_cases hts : ascii "timestamp" = s
  · subst hts
    rw [valueBehindMessage, strayValue_sender] at h
    split at h
    · next hn =>
      by_cases hti : ascii "msg_id" = t
      · subst hti
        exact absurd hn (by decide)
      · rw [strayValue_of_ne timestamp_ne_msg_id.symm hti] at h
        exact absurd h.symm ht.ne_nil
    · rw [trimValue_trimValue] at h
      exact .senderTimestamp (h ▸ plain_trimValue t)
  · by_cases htt : ascii "timestamp" = t
    · subst htt
      rw [valueBehindMessage, strayValue_target hts,
        if_neg (show trimValue (ascii "target") ≠ [] by decide)] at h
      exact absurd h (by decide)
    · rw [valueBehindMessage, if_pos (strayValue_of_ne hts htt), trimValue_optDecimal] at h
      have hn : parseUint64Safe (strayValue (ascii "msg_id") s t (ascii "target")) ≠ 0 := by
        intro h0
        rw [h0] at h
        exact ht.ne_nil h.symm
      by_cases hid : ascii "msg_id" = s
      · subst hid
        rw [optDecimal, if_neg hn] at h
        rw [← h]
        exact .senderMsgId (Nat.pos_of_ne_zero hn) (parseUint64Safe_lt _)
      · by_cases hidt : ascii "msg_id" = t
        · subst hidt
          rw [strayValue_target hid] at hn
          exact absurd (by decide) hn
        · rw [strayValue_of_ne hid hidt] at hn
          exact absurd rfl hn

theorem encodedMessage_of_ne {s t m : Bytes} (hs : ascii "message" ≠ s) (hm : trimValue m = m) :
    encodedMessage s t m = m := by
  rw [encodedMessage, if_neg hs, hm]
  split <;> rfl

theorem answers_of_coincidence {s t m : Bytes} (ht : ChatText t) (hm : ChatText m)
    (h : ChatCoincidence s t m) : trimValue s = s ∧ answeredTarget s t m = t ∧
      liteLookup (ascii "message") ((ascii "sender", s) :: decodedTail s t m) = m := by
  cases h with
  | senderTarget hp =>
    have hM : encodedMessage (ascii "target") t t = t :=
      encodedMessage_of_ne target_ne_message.symm (trimValue_of_plain hp)
    refine ⟨by decide, ?_, ?_⟩
    · rw [answers_of_sender_target (by rw [hM]; exact ht.ne_nil), hM, trimValue_of_plain hp]
    · rw [liteLookup_message_decoded (by rw [hM]; exact ht.ne_nil), hM, trimValue_of_plain hp]
  | senderTimestamp hp =>
    have hM : encodedMessage (ascii "timestamp") t (ascii "target") = ascii "target" :=
      encodedMessage_of_ne message_ne_timestamp (by decide)
    refine ⟨by decide, ?_, ?_⟩
    · rw [answers_of_message_target target_ne_timestamp hM, valueBehindMessage, strayValue_sender,
        trimValue_of_plain hp, if_neg ht.ne_nil, trimValue_of_plain hp]
    · rw [liteLookup_message_decoded (by rw [hM]; exact hm.ne_nil), hM]
      decide
  | @senderMsgId n h₀ h =>
    have hM : encodedMessage (ascii "msg_id") (toDecimal n) (ascii "target") = ascii "target" :=
      encodedMessage_of_ne message_ne_msg_id (by decide)
    refine ⟨by decide, ?_, ?_⟩
    · have hdig : ascii "timestamp" ≠ toDecimal n :=
        ne_of_not_digit (by decide) fun b hb => isDigit_of_mem_toDecimal hb
      rw [answers_of_message_target target_ne_msg_id hM, valueBehindMessage,
        if_pos (strayValue_of_ne timestamp_ne_msg_id hdig), strayValue_sender,
        trimValue_of_plain (plain_toDecimal n), parseUint64Safe_toDecimal, Nat.mod_eq_of_lt h,
        trimValue_optDecimal, optDecimal, if_neg (by omega)]
    · rw [liteLookup_message_decoded (by rw [hM]; exact hm.ne_nil), hM]
      decide

theorem coincidence_of_answers {s t m : Bytes} (ht : ChatText t) (hm : ChatText m)
    (htarget : answeredTarget s t m = t)
    (hmessage : liteLookup (ascii "message") ((ascii "sender", s) :: decodedTail s t m) = m) :
    ChatCoincidence s t m := by
  have hM : encodedMessage s t m ≠ [] := by
    intro h
    rw [answeredTarget_of_no_message ht.ne_nil hm.ne_nil h] at htarget
    exact ht.ne_nil htarget.symm
  rw [liteLookup_message_decoded hM] at hmessage
  by_cases hs : ascii "target" = s
  · subst hs
    rw [answers_of_sender_target hM] at htarget
    have htm : t = m := htarget.symm.trans hmessage
    subst htm
    exact .senderTarget (hmessage ▸ plain_trimValue _)
  · by_cases hMt : ascii "target" = encodedMessage s t m
    · rw [answers_of_message_target hs hMt.symm] at htarget
      have hm' : m = ascii "target" := by
        rw [← hmessage, ← hMt]
        decide
      subst hm'
      have hsm : ascii "message" ≠ s := by
        -- else the target reads `target` and no stray member is left to answer with
        intro h
        subst h
        rw [encodedMessage, if_pos rfl] at hMt
        have hne : ∀ key : Bytes, trimValue key = key → key ≠ ascii "target" → key ≠ t := by
          intro key hk hkt h
          rw [← h, hk] at hMt
          exact hkt hMt.symm
        have hts := strayValue_of_ne (m := ascii "target") message_ne_timestamp.symm
          (hne (ascii "timestamp") (by decide) target_ne_timestamp.symm)
        have hid := strayValue_of_ne (m := ascii "target") message_ne_msg_id.symm
          (hne (ascii "msg_id") (by decide) target_ne_msg_id.symm)
        rw [valueBehindMessage_eq_nil hts (by rw [hid]; rfl)] at htarget
        exact ht.ne_nil htarget.symm
      exact coincidence_of_behind ht hsm htarget
    · rw [answers_otherwise hs hMt] at htarget
      exact absurd htarget.symm ht.ne_nil

/-- **When a chat message survives the codec.** Exactly when the sender's name happens
    to be a name the slow extractor mistakes for a member name, and the fields agree with
    what it then reads. -/
theorem chat_survives_iff {s t m : Bytes} (hs : ChatText s) (ht : ChatText t) (hm : ChatText m)
    (hmax : (chatJson s t m).length ≤ stringMax) :
    chatSurvives s t m ↔ ChatCoincidence s t m := by
  rw [chatSurvives_iff_answers hs ht hm hmax]
  constructor
  · rintro ⟨-, htarget, hmessage⟩
    exact coincidence_of_answers ht hm htarget hmessage
  · intro h
    exact answers_of_coincidence ht hm h

theorem chat_survives_sender_target :
    chatSurvives (ascii "target") (ascii "hi") (ascii "hi") :=
  (chat_survives_iff ⟨by decide, by decide, by decide⟩ ⟨by decide, by decide, by decide⟩
    ⟨by decide, by decide, by decide⟩ (by decide)).mpr (.senderTarget (by decide))

/-- `alice`, `bob` and `hi`: the decoded body has no target, the extraction answers the
    empty string. -/
theorem chat_lost : ChatText (ascii "alice") ∧ ChatText (ascii "bob") ∧ ChatText (ascii "hi") ∧
    ¬ chatSurvives (ascii "alice") (ascii "bob") (ascii "hi") := by
  have hs : ChatText (ascii "alice") := ⟨by decide, by decide, by decide⟩
  have ht : ChatText (ascii "bob") := ⟨by decide, by decide, by decide⟩
  have hm : ChatText (ascii "hi") := ⟨by decide, by decide, by decide⟩
  refine ⟨hs, ht, hm, fun h => ?_⟩
  have hlen : (chatJson (ascii "alice") (ascii "bob") (ascii "hi")).length ≤ stringMax := by decide
  obtain ⟨-, htarget, -⟩ := (chatSurvives_iff_answers hs ht hm hlen).mp h
  rw [answers_otherwise (by decide) (by decide)] at htarget
  exact ht.ne_nil htarget.symm

end EpollChat
