import EpollChat.Proof.Wire.Arrays

/-!
# Encode and decode are inverse on canonical bodies

For the messages of types 3, 4, 7, 9 and 13 the two tables of the codec agree. A message is a
value for each field of its type; its body has the fields that are not empty, in the order the
encoder writes them, and its JSON text has the same ones. The decoder makes the one of the
other, and the encoder the other of the one, as long as no string can be taken for a member
name.
-/

namespace EpollChat

open Pb

/-! ## 1. Messages -/

/-- A value for each field of a message. -/
inductive Message where
  | online (sender : Bytes)
  | login (username password : Bytes)
  | history (lastTs peer : Bytes)
  | friend (friendName : Bytes)
  | ack (result : Bytes) (ackType msgId : Nat) (user errMsg : Bytes) (msgIds : List Nat)
deriving DecidableEq, Repr

namespace Message

def msgType : Message → UInt16
  | online _ => 3
  | login _ _ => 4
  | history _ _ => 7
  | friend _ => 9
  | ack _ _ _ _ _ _ => 13

/-- The protobuf body with the fields that are not empty, in the encoder's order. -/
def body : Message → Bytes
  | online sender => putString 1 sender
  | login username password => putString 1 username ++ putString 2 password
  | history lastTs peer => putString 1 lastTs ++ putString 2 peer
  | friend friendName => putString 1 friendName
  | ack result ackType msgId user errMsg msgIds =>
      putString 1 result ++ (putUint64 2 ackType ++ (putUint64 3 msgId ++ (putString 4 user ++
        (putString 5 errMsg ++ (msgIds.map (writeUint64 5)).flatten))))

/-- The string members of an acknowledgement. -/
def ackStrings (result : Bytes) (ackType msgId : Nat) (user errMsg : Bytes) : List (Bytes × Bytes) :=
  optMember (ascii "result") result ++ (optMember (ascii "type") (optDecimal ackType) ++
    (optMember (ascii "msg_id") (optDecimal msgId) ++ (optMember (ascii "user") user ++
      optMember (ascii "message") errMsg)))

/-- The JSON object of these fields. -/
def json : Message → Bytes
  | online sender => objectText (optMember (ascii "sender") sender)
  | login username password =>
      objectText (optMember (ascii "username") username ++ optMember (ascii "password") password)
  | history lastTs peer =>
      objectText (optMember (ascii "last_timestamp") lastTs ++ optMember (ascii "peer") peer)
  | friend friendName => objectText (optMember (ascii "friend") friendName)
  | ack result ackType msgId user errMsg msgIds =>
      objectWithIds (ackStrings result ackType msgId user errMsg) msgIds

def strings : Message → List Bytes
  | online sender => [sender]
  | login username password => [username, password]
  | history lastTs peer => [lastTs, peer]
  | friend friendName => [friendName]
  | ack result _ _ user errMsg _ => [result, user, errMsg]

def numbers : Message → List Nat
  | ack _ ackType msgId _ _ msgIds => ackType :: msgId :: msgIds
  | _ => []

def msgIds : Message → List Nat
  | ack _ _ _ _ _ msgIds => msgIds
  | _ => []

/-- The JSON member names of the type. -/
def names : Message → List Bytes
  | online _ => [ascii "sender"]
  | login _ _ => [ascii "username", ascii "password"]
  | history _ _ => [ascii "last_timestamp", ascii "peer"]
  | friend _ => [ascii "friend"]
  | ack _ _ _ _ _ _ => [ascii "result", ascii "type", ascii "msg_id", ascii "user", ascii "message",
      ascii "msg_ids"]

/-- A message the codec can be trusted on. -/
structure Canonical (b : Message) : Prop where
  quotable : ∀ v ∈ b.strings, Quotable v
  no_name : ∀ v ∈ b.strings, v ∉ b.names
  fits : ∀ n ∈ b.numbers, n < 2 ^ 64
  few : b.msgIds.length ≤ 256
  nonzero : ∀ n ∈ b.msgIds, n ≠ 0
  present : b.body ≠ []
  short : b.body.length ≤ stringMax

/-! ## 2. Decoding -/

/-- The fields of the body. -/
def fields : Message → List Field
  | online sender => optString 1 sender ++ []
  | login username password => optString 1 username ++ (optString 2 password ++ [])
  | history lastTs peer => optString 1 lastTs ++ (optString 2 peer ++ [])
  | friend friendName => optString 1 friendName ++ []
  | ack result ackType msgId user errMsg msgIds =>
      optString 1 result ++ (optUint64 2 ackType ++ (optUint64 3 msgId ++ (optString 4 user ++
        (optString 5 errMsg ++ msgIds.map fun n => ⟨5, .varint n⟩))))

/-- The decoder's variables after them. -/
def decoded : Message → ProtoFields
  | online sender => { sender := sender }
  | login username password => { username := username, password := password }
  | history lastTs peer => { lastTs := lastTs, peer := peer }
  | friend friendName => { friendName := friendName }
  | ack result ackType msgId user errMsg msgIds =>
      { result := result, ackType := ackType, msgId := msgId, user := user, errMsg := errMsg, msgIds := msgIds }

theorem length_le_putString (n : Nat) (v : Bytes) : v.length ≤ (putString n v).length := by
  unfold putString
  split
  · next h => rw [h]
  · simp only [writeString, List.length_append]
    omega

theorem bodyText_ids : ∀ {ids : List Nat}, (∀ n ∈ ids, n < 2 ^ 64) →
    BodyText (ids.map fun n => ⟨5, .varint n⟩) (ids.map (writeUint64 5)).flatten := by
  intro ids
  induction ids with
  | nil => exact fun _ => .nil
  | cons n ids ih =>
    intro h
    rw [List.map_cons, List.map_cons, List.flatten_cons]
    exact .cons (.varint (by decide) (isUint64_writeKey (by decide) (by decide))
      (isUint64_writeVarint (h n List.mem_cons_self))) (ih fun k hk => h k (List.mem_cons_of_mem _ hk))

theorem bodyText {b : Message} (h : b.Canonical) : BodyText b.fields b.body := by
  have hshort : b.body.length < wordSize := Nat.lt_of_le_of_lt h.short (by decide)
  have hone : ∀ {n : Nat} {v : Bytes}, n < 2 ^ 29 → (putString n v).length < wordSize →
      BodyText (optString n v) (putString n v) :=
    fun hn hlen => bodyText_putString hn (Nat.lt_of_le_of_lt (length_le_putString _ _) hlen)
  cases b with
  | online sender =>
    rw [fields, List.append_nil]
    exact hone (by decide) hshort
  | login username password =>
    rw [fields, List.append_nil]
    rw [body, List.length_append] at hshort
    exact (hone (by decide) (by omega)).append (hone (by decide) (by omega))
  | history lastTs peer =>
    rw [fields, List.append_nil]
    rw [body, List.length_append] at hshort
    exact (hone (by decide) (by omega)).append (hone (by decide) (by omega))
  | friend friendName =>
    rw [fields, List.append_nil]
    exact hone (by decide) hshort
  | ack result ackType msgId user errMsg msgIds =>
    have hfits := h.fits
    simp only [numbers, List.mem_cons, forall_eq_or_imp] at hfits
    simp only [body, List.length_append] at hshort
    exact (hone (by decide) (by omega)).append ((bodyText_putUint64 (by decide) hfits.1).append
      ((bodyText_putUint64 (by decide) hfits.2.1).append ((hone (by decide) (by omega)).append
        ((hone (by decide) (by omega)).append (bodyText_ids hfits.2.2)))))

theorem readFields_ids : ∀ (ids : List Nat) (f : ProtoFields),
    readFields 13 (ids.map fun n => ⟨5, .varint n⟩) f = some { f with msgIds := f.msgIds ++ ids } := by
  intro ids
  induction ids with
  | nil =>
    intro f
    rw [List.append_nil]
    rfl
  | cons n ids ih =>
    intro f
    have hstep : readField 13 ⟨5, .varint n⟩ f = some { f with msgIds := f.msgIds ++ [n] } := rfl
    rw [List.map_cons, readFields, hstep]
    dsimp only
    rw [ih, List.append_assoc, List.singleton_append]

theorem readFields_fields (b : Message) : readFields b.msgType b.fields {} = some b.decoded := by
  cases b with
  | online sender =>
    rw [fields, readFields_optString { sender := sender }]
    · rfl
    · split
      · next h => rw [h]
      · rfl
  | login username password =>
    rw [fields, readFields_optString { username := username },
      readFields_optString { username := username, password := password }]
    · rfl
    all_goals
      split
      · next h => rw [h]
      · rfl
  | history lastTs peer =>
    rw [fields, readFields_optString { lastTs := lastTs },
      readFields_optString { lastTs := lastTs, peer := peer }]
    · rfl
    all_goals
      split
      · next h => rw [h]
      · rfl
  | friend friendName =>
    rw [fields, readFields_optString { friendName := friendName }]
    · rfl
    · split
      · next h => rw [h]
      · rfl
  | ack result ackType msgId user errMsg msgIds =>
    rw [fields, readFields_optString { result := result },
      readFields_optUint64 { result := result, ackType := ackType },
      readFields_optUint64 { result := result, ackType := ackType, msgId := msgId },
      readFields_optString { result := result, ackType := ackType, msgId := msgId, user := user },
      readFields_optString
        { result := result, ackType := ackType, msgId := msgId, user := user, errMsg := errMsg }]
    · exact readFields_ids msgIds _
    all_goals
      split
      · next h => rw [h]
      · rfl

theorem renderJson_decoded (b : Message) : renderJson b.msgType b.decoded = b.json := by
  cases b with
  | online sender => exact renderJson_online _
  | login username password => exact renderJson_login _
  | history lastTs peer => exact renderJson_history _
  | friend friendName => exact renderJson_friend _
  | ack result ackType msgId user errMsg msgIds => exact renderJson_ack _

/-- **A canonical body is decoded to its JSON object.** -/
theorem decode_body {b : Message} (h : b.Canonical) (text : Bytes) :
    (∃ fuel, decodeProtoToJson fuel b.msgType b.body = some text) ↔ text = b.json := by
  have hbody := bodyText h
  have hfields : b.fields ≠ [] := fun hnil => h.present (hbody.eq_nil_iff.mpr hnil)
  rw [decodeProtoToJson_bodyText b.msgType hbody (Nat.lt_of_le_of_lt h.short (by decide)), if_neg hfields,
    readFields_fields, jsonOf, renderJson_decoded]

/-! ## 3. Encoding -/

theorem objectText_ne_nil (ms : List (Bytes × Bytes)) : objectText ms ≠ [] := by
  cases ms with
  | nil => simp [objectText]
  | cons m ms => simp [objectText, membersFrom]

/-- `get` on an object of members none of whose values is a name. -/
theorem getField_value {key : Bytes} (hk : IsKey key) {ms : List (Bytes × Bytes)} (hms : Clean ms)
    (hname : ∀ m ∈ ms, key ≠ m.2) : getField (objectText ms) key = valueOf key ms := by
  rw [getField_objectText hk hms, getLookup_eq_valueOf hname]

theorem value_ne {k v key : Bytes} (h : key ≠ v) : ∀ m ∈ optMember k v, key ≠ m.2 := by
  intro m hm
  obtain ⟨rfl, -⟩ := mem_optMember hm
  exact h

theorem value_ne_append {ms ms' : List (Bytes × Bytes)} {key : Bytes} (h : ∀ m ∈ ms, key ≠ m.2)
    (h' : ∀ m ∈ ms', key ≠ m.2) : ∀ m ∈ ms ++ ms', key ≠ m.2 := by
  intro m hm
  rcases List.mem_append.mp hm with hm | hm
  · exact h m hm
  · exact h' m hm

/-- An object of one member. -/
theorem getField_one {k v : Bytes} (hk : IsKey k) (hv : Quotable v) (hne : k ≠ v) :
    getField (objectText (optMember k v)) k = v := by
  rw [getField_value hk (clean_optMember hk hv) (value_ne hne), valueOf_last]

/-- An object of two members, read by the names of both. -/
theorem getField_two (k k' : Bytes) {v v' : Bytes} (hk : IsKey k) (hk' : IsKey k') (hkk : k ≠ k')
    (hq : ∀ u ∈ [v, v'], Quotable u) (hname : ∀ u ∈ [v, v'], k ≠ u ∧ k' ≠ u) :
    getField (objectText (optMember k v ++ optMember k' v')) k = v ∧
    getField (objectText (optMember k v ++ optMember k' v')) k' = v' := by
  have hclean := (clean_optMember hk (hq v (by simp))).append (clean_optMember hk' (hq v' (by simp)))
  obtain ⟨h₁, h₃⟩ := hname v (by simp)
  obtain ⟨h₂, h₄⟩ := hname v' (by simp)
  constructor
  · rw [getField_value hk hclean (value_ne_append (value_ne h₁) (value_ne h₂))]
    exact valueOf_optMember v (valueOf_last_of_ne hkk v')
  · rw [getField_value hk' hclean (value_ne_append (value_ne h₃) (value_ne h₄)),
      valueOf_optMember_of_ne hkk.symm, valueOf_last]

/-- The members of an acknowledgement, for a name that no string spells. -/
theorem ackStrings_value {b : Message} (h : b.Canonical) (key : Bytes) {result user errMsg : Bytes}
    {ackType msgId : Nat} {msgIds : List Nat} (hb : b = ack result ackType msgId user errMsg msgIds)
    (hkey : key ∈ b.names) (hdigit : key.all isDigit = false) :
    ∀ m ∈ ackStrings result ackType msgId user errMsg,
      quote ∉ m.1 ∧ Quotable m.2 ∧ m.2 ≠ [] ∧ key ≠ m.2 := by
  subst hb
  have hone : ∀ {k v : Bytes}, quote ∉ k → Quotable v → key ≠ v → ∀ m ∈ optMember k v,
      quote ∉ m.1 ∧ Quotable m.2 ∧ m.2 ≠ [] ∧ key ≠ m.2 := by
    intro k v hk hv hkv m hm
    obtain ⟨rfl, hne⟩ := mem_optMember hm
    exact ⟨hk, hv, hne, hkv⟩
  have hstring : ∀ {k v : Bytes}, quote ∉ k → v ∈ [result, user, errMsg] → ∀ m ∈ optMember k v,
      quote ∉ m.1 ∧ Quotable m.2 ∧ m.2 ≠ [] ∧ key ≠ m.2 := by
    intro k v hk hv
    refine hone hk (h.quotable v hv) ?_
    rintro rfl
    exact h.no_name key hv hkey
  have hnumber : ∀ {k : Bytes} {n : Nat}, quote ∉ k → ∀ m ∈ optMember k (optDecimal n),
      quote ∉ m.1 ∧ Quotable m.2 ∧ m.2 ≠ [] ∧ key ≠ m.2 := fun hk =>
    hone hk (quotable_optDecimal _) (ne_of_not_digit hdigit fun b hb => isDigit_of_mem_optDecimal hb)
  intro m hm
  simp only [ackStrings, List.mem_append] at hm
  rcases hm with hm | hm | hm | hm | hm
  · exact hstring (by decide) (by simp) m hm
  · exact hnumber (by decide) m hm
  · exact hnumber (by decide) m hm
  · exact hstring (by decide) (by simp) m hm
  · exact hstring (by decide) (by simp) m hm

theorem parseUint64Safe_optDecimal {n : Nat} (hn : n < 2 ^ 64) : parseUint64Safe (optDecimal n) = n := by
  unfold optDecimal
  split
  · next h => rw [h]; rfl
  · rw [parseUint64Safe_toDecimal, Nat.mod_eq_of_lt hn]

theorem encodeJsonToProto_online {json : Bytes} (h : json ≠ []) :
    encodeJsonToProto 3 json = putString 1 (getField json (ascii "sender")) := by
  rw [encodeJsonToProto, if_neg h]
  rfl

theorem encodeJsonToProto_login {json : Bytes} (h : json ≠ []) : encodeJsonToProto 4 json
    = putString 1 (getField json (ascii "username")) ++ putString 2 (getField json (ascii "password")) := by
  rw [encodeJsonToProto, if_neg h]
  rfl

theorem encodeJsonToProto_history {json : Bytes} (h : json ≠ []) : encodeJsonToProto 7 json
    = putString 1 (getField json (ascii "last_timestamp")) ++
        putString 2 (if getField json (ascii "peer") = [] then getField json (ascii "target")
          else getField json (ascii "peer")) := by
  rw [encodeJsonToProto, if_neg h]
  rfl

theorem encodeJsonToProto_friend {json : Bytes} (h : json ≠ []) :
    encodeJsonToProto 9 json = putString 1 (getField json (ascii "friend")) := by
  rw [encodeJsonToProto, if_neg h]
  rfl

theorem encodeJsonToProto_ack {json : Bytes} (h : json ≠ []) : encodeJsonToProto 13 json
    = putString 1 (getField json (ascii "result")) ++
        (putUint64 2 (parseUint64Safe (getField json (ascii "type"))) ++
          (putUint64 3 (parseUint64Safe (getField json (ascii "msg_id"))) ++
            (putString 4 (getField json (ascii "user")) ++
              (putString 5 (getField json (ascii "message")) ++
                ((parseJsonUint64ArrayFast json (ascii "msg_ids") 256).map (putUint64 5)).flatten)))) := by
  rw [encodeJsonToProto, if_neg h]
  rfl

/-- Where the peer is missing, a timestamp that reads `target` is not taken for one. -/
theorem getField_no_target {lastTs : Bytes} (h : Quotable lastTs) :
    getField (objectText (optMember (ascii "last_timestamp") lastTs ++ optMember (ascii "peer") []))
      (ascii "target") = [] := by
  have hnone : optMember (ascii "peer") [] = [] := if_pos rfl
  rw [hnone, List.append_nil, getField_objectText (by decide) (clean_optMember (by decide) h)]
  unfold optMember
  split
  · rfl
  · rw [getLookup, if_neg (show ascii "target" ≠ ascii "last_timestamp" by decide)]
    split <;> rfl

theorem objectWithIds_ne_nil (ms : List (Bytes × Bytes)) (ids : List Nat) : objectWithIds ms ids ≠ [] := by
  rw [← JsonOut.addIds_ofMembers]
  simp

theorem map_putUint64 : ∀ {ids : List Nat}, (∀ n ∈ ids, n ≠ 0) →
    ids.map (putUint64 5) = ids.map (writeUint64 5) := by
  intro ids h
  refine List.map_congr_left fun n hn => ?_
  rw [putUint64, if_neg (h n hn)]

theorem ackStrings_name {result user errMsg : Bytes} {ackType msgId : Nat} :
    ∀ m ∈ ackStrings result ackType msgId user errMsg, ascii "msg_ids" ≠ m.1 := by
  have hone : ∀ {k v : Bytes}, ascii "msg_ids" ≠ k → ∀ m ∈ optMember k v, ascii "msg_ids" ≠ m.1 := by
    intro k v hk m hm
    rw [(mem_optMember hm).1]
    exact hk
  intro m hm
  simp only [ackStrings, List.mem_append] at hm
  rcases hm with hm | hm | hm | hm | hm
  all_goals exact hone (by decide) m hm

/-- The five values under the five names. -/
theorem valueOf_ackStrings (result : Bytes) (ackType msgId : Nat) (user errMsg : Bytes) :
    valueOf (ascii "result") (ackStrings result ackType msgId user errMsg) = result ∧
    valueOf (ascii "type") (ackStrings result ackType msgId user errMsg) = optDecimal ackType ∧
    valueOf (ascii "msg_id") (ackStrings result ackType msgId user errMsg) = optDecimal msgId ∧
    valueOf (ascii "user") (ackStrings result ackType msgId user errMsg) = user ∧
    valueOf (ascii "message") (ackStrings result ackType msgId user errMsg) = errMsg := by
  unfold ackStrings
  refine ⟨?_, ?_, ?_, ?_, ?_⟩
  · refine valueOf_optMember _ ?_
    rw [valueOf_optMember_of_ne (by decide), valueOf_optMember_of_ne (by decide),
      valueOf_optMember_of_ne (by decide), valueOf_last_of_ne (by decide)]
  · rw [valueOf_optMember_of_ne (by decide)]
    refine valueOf_optMember _ ?_
    rw [valueOf_optMember_of_ne (by decide), valueOf_optMember_of_ne (by decide),
      valueOf_last_of_ne (by decide)]
  · rw [valueOf_optMember_of_ne (by decide), valueOf_optMember_of_ne (by decide)]
    refine valueOf_optMember _ ?_
    rw [valueOf_optMember_of_ne (by decide), valueOf_last_of_ne (by decide)]
  · rw [valueOf_optMember_of_ne (by decide), valueOf_optMember_of_ne (by decide),
      valueOf_optMember_of_ne (by decide)]
    exact valueOf_optMember _ (valueOf_last_of_ne (by decide) _)
  · rw [valueOf_optMember_of_ne (by decide), valueOf_optMember_of_ne (by decide),
      valueOf_optMember_of_ne (by decide), valueOf_optMember_of_ne (by decide), valueOf_last]

theorem encode_ack {result user errMsg : Bytes} {ackType msgId : Nat} {msgIds : List Nat}
    (h : (ack result ackType msgId user errMsg msgIds).Canonical) :
    encodeJsonToProto 13 (objectWithIds (ackStrings result ackType msgId user errMsg) msgIds)
      = (ack result ackType msgId user errMsg msgIds).body := by
  have hget : ∀ key : Bytes, IsKey key → key ≠ ascii "msg_ids" → key.all isDigit = false →
      key ∈ (ack result ackType msgId user errMsg msgIds).names →
      getField (objectWithIds (ackStrings result ackType msgId user errMsg) msgIds) key
        = valueOf key (ackStrings result ackType msgId user errMsg) :=
    fun key hk hne hdigit hkey =>
      getField_objectWithIds hk hne (ackStrings_value h key rfl hkey hdigit) msgIds
  obtain ⟨hresult, htype, hid, huser, hmessage⟩ := valueOf_ackStrings result ackType msgId user errMsg
  have hfits := h.fits
  simp only [numbers, List.forall_mem_cons] at hfits
  have hids : parseJsonUint64ArrayFast (objectWithIds (ackStrings result ackType msgId user errMsg) msgIds)
      (ascii "msg_ids") 256 = msgIds := by
    refine (parseJsonUint64ArrayFast_objectWithIds (fun m hm => ?_) hfits.2.2 (by decide)).trans
      (List.take_of_length_le h.few)
    obtain ⟨hk, hv, -, hne⟩ := ackStrings_value h (ascii "msg_ids") rfl (by simp [names]) (by decide) m hm
    exact ⟨hk, hv.no_quote, ackStrings_name m hm, hne⟩
  rw [encodeJsonToProto_ack (objectWithIds_ne_nil _ _),
    hget (ascii "result") (by decide) (by decide) (by decide) (by simp [names]),
    hget (ascii "type") (by decide) (by decide) (by decide) (by simp [names]),
    hget (ascii "msg_id") (by decide) (by decide) (by decide) (by simp [names]),
    hget (ascii "user") (by decide) (by decide) (by decide) (by simp [names]),
    hget (ascii "message") (by decide) (by decide) (by decide) (by simp [names]), hids, hresult,
    htype, hid, huser, hmessage, parseUint64Safe_optDecimal hfits.1, parseUint64Safe_optDecimal hfits.2.1,
    map_putUint64 (show ∀ n ∈ msgIds, n ≠ 0 from h.nonzero)]
  rfl

/-- **The JSON object of a message is encoded to its body.** -/
theorem encode_json {b : Message} (h : b.Canonical) : encodeJsonToProto b.msgType b.json = b.body := by
  have hq := h.quotable
  have hname : ∀ v ∈ b.strings, ∀ key ∈ b.names, key ≠ v := by
    rintro v hv key hkey rfl
    exact h.no_name key hv hkey
  cases b with
  | online sender =>
    rw [msgType, json, encodeJsonToProto_online (objectText_ne_nil _),
      getField_one (by decide) (hq sender (by simp [strings]))
        (hname sender (by simp [strings]) _ (by simp [names]))]
    rfl
  | login username password =>
    obtain ⟨hu, hp⟩ := getField_two (ascii "username") (ascii "password") (by decide) (by decide)
      (by decide) hq fun v hv => ⟨hname v hv _ (by simp [names]), hname v hv _ (by simp [names])⟩
    rw [msgType, json, encodeJsonToProto_login (objectText_ne_nil _), hu, hp]
    rfl
  | history lastTs peer =>
    obtain ⟨ht, hp⟩ := getField_two (ascii "last_timestamp") (ascii "peer") (by decide) (by decide)
      (by decide) hq fun v hv => ⟨hname v hv _ (by simp [names]), hname v hv _ (by simp [names])⟩
    rw [msgType, json, encodeJsonToProto_history (objectText_ne_nil _), ht, hp]
    split
    · next hnil =>
      subst hnil
      rw [getField_no_target (hq lastTs (by simp [strings]))]
      rfl
    · rfl
  | friend friendName =>
    rw [msgType, json, encodeJsonToProto_friend (objectText_ne_nil _),
      getField_one (by decide) (hq friendName (by simp [strings]))
        (hname friendName (by simp [strings]) _ (by simp [names]))]
    rfl
  | ack result ackType msgId user errMsg msgIds => exact encode_ack h

/-- **Encode and decode are mutually inverse on canonical bodies.** -/
theorem canonical_inverse {b : Message} (h : b.Canonical) :
    (∀ text, (∃ fuel, decodeProtoToJson fuel b.msgType b.body = some text) ↔ text = b.json) ∧
    encodeJsonToProto b.msgType b.json = b.body :=
  ⟨decode_body h, encode_json h⟩

/-- An acknowledgement of two messages, without an error text. -/
def ackOfTwo : Message := ack (ascii "ok") 1 7 (ascii "bob, jr") [] [7, 2 ^ 64 - 1]

theorem canonical_inverse_ackOfTwo :
    (∀ text, (∃ fuel, decodeProtoToJson fuel 13 ackOfTwo.body = some text) ↔ text = ackOfTwo.json) ∧
    encodeJsonToProto 13 ackOfTwo.json = ackOfTwo.body := by
  refine canonical_inverse (b := ackOfTwo)
    ⟨?_, by decide, by decide, by decide, by decide, by decide, by decide⟩
  intro v hv
  simp only [ackOfTwo, strings, List.mem_cons, List.not_mem_nil, or_false] at hv
  rcases hv with rfl | rfl | rfl
  all_goals exact ⟨by decide, by decide⟩

end Message
end EpollChat
