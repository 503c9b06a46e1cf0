import EpollChat.Proof.Wire.Arrays

/-!
# When decoded JSON is unambiguous

The decoder writes values between quotes as they are, and no text of the server has an escape
for a quote, so a value with a quote in it can end its own member and begin another one. Apart
from that the text determines the values: a member is its name and its value up to the next
quote, the array is its digits, and a member that is missing is empty or zero.
-/

namespace EpollChat

open Lib
open Pb

/-! ## 1. What is written -/

/-- The strings `decodeProtoToJson` writes for a type, empty where a field is missing. -/
def emittedStrings (msgType : UInt16) (f : ProtoFields) : List Bytes :=
  if msgType = 1 then [f.sender, f.target, f.message, f.timestamp]
  else if msgType = 3 then [f.sender]
  else if msgType = 4 then [f.username, f.password]
  else if msgType = 7 then [f.lastTs, f.peer]
  else if msgType = 9 then [f.friendName]
  else if msgType = 13 then [f.result, f.user, f.errMsg]
  else []

/-- The numbers, zero where a field is missing, and the array. -/
def emittedNumbers (msgType : UInt16) (f : ProtoFields) : List Nat :=
  if msgType = 1 then [f.msgId]
  else if msgType = 13 then f.ackType :: f.msgId :: f.msgIds
  else []

/-- The members that are not empty. -/
def optMembers : List (Bytes × Bytes) → List (Bytes × Bytes)
  | [] => []
  | (k, v) :: kvs => optMember k v ++ optMembers kvs

/-- The names of a type, each with its value. -/
def namedValues (msgType : UInt16) (f : ProtoFields) : List (Bytes × Bytes) :=
  if msgType = 1 then
    [(ascii "sender", f.sender), (ascii "target", f.target), (ascii "message", f.message),
      (ascii "timestamp", f.timestamp), (ascii "msg_id", optDecimal f.msgId)]
  else if msgType = 3 then [(ascii "sender", f.sender)]
  else if msgType = 4 then [(ascii "username", f.username), (ascii "password", f.password)]
  else if msgType = 7 then [(ascii "last_timestamp", f.lastTs), (ascii "peer", f.peer)]
  else if msgType = 9 then [(ascii "friend", f.friendName)]
  else if msgType = 13 then
    [(ascii "result", f.result), (ascii "type", optDecimal f.ackType), (ascii "msg_id", optDecimal f.msgId),
      (ascii "user", f.user), (ascii "message", f.errMsg)]
  else []

theorem objectWithIds_nil (ms : List (Bytes × Bytes)) : objectWithIds ms [] = objectText ms := by
  rw [← JsonOut.addIds_ofMembers, ← JsonOut.ofMembers_close]
  rfl

/-- The types clients send that have fields. -/
def clientTypes : List UInt16 := [1, 3, 4, 7, 9, 13]

theorem renderJson_clientType {msgType : UInt16} (ht : msgType ∈ clientTypes) (f : ProtoFields) :
    renderJson msgType f
      = objectWithIds (optMembers (namedValues msgType f)) (if msgType = 13 then f.msgIds else []) := by
  simp only [clientTypes, List.mem_cons, List.not_mem_nil, or_false] at ht
  rcases ht with rfl | rfl | rfl | rfl | rfl | rfl
  · rw [renderJson_chat, ← objectWithIds_nil, chatMembers, ← List.append_nil (optMember (ascii "msg_id") _)]
    rfl
  · rw [renderJson_online, ← objectWithIds_nil, ← List.append_nil (optMember (ascii "sender") _)]
    rfl
  · rw [renderJson_login, ← objectWithIds_nil, ← List.append_nil (optMember (ascii "password") _)]
    rfl
  · rw [renderJson_history, ← objectWithIds_nil, ← List.append_nil (optMember (ascii "peer") _)]
    rfl
  · rw [renderJson_friend, ← objectWithIds_nil, ← List.append_nil (optMember (ascii "friend") _)]
    rfl
  · rw [renderJson_ack, ackMembers, ← List.append_nil (optMember (ascii "message") _)]
    rfl

/-! ## 2. The text determines the members -/

theorem numbersRest_inj : ∀ {ns ns' : List Nat}, numbersRest ns = numbersRest ns' → ns = ns' := by
  intro ns
  induction ns with
  | nil =>
    intro ns' h
    cases ns' with
    | nil => rfl
    | cons n ns' => exact absurd (List.cons.inj h).1 (by decide)
  | cons n ns ih =>
    intro ns' h
    cases ns' with
    | nil => exact absurd (List.cons.inj h).1 (by decide)
    | cons n' ns' =>
      have h := (List.cons.inj h).2
      obtain ⟨c, r, hr, hc, -⟩ := numbersRest_cons ns
      obtain ⟨c', r', hr', hc', -⟩ := numbersRest_cons ns'
      rw [hr, hr'] at h
      -- the digits come to an end at the same place
      have hdigits := congrArg (List.takeWhile isDigit) h
      have hrest := congrArg (List.dropWhile isDigit) h
      rw [takeWhile_toDecimal n r hc, takeWhile_toDecimal n' r' hc'] at hdigits
      rw [dropWhile_toDecimal n r hc, dropWhile_toDecimal n' r' hc', ← hr, ← hr'] at hrest
      rw [toDecimal_inj hdigits, ih hrest]

theorem numbersText_inj {ids ids' : List Nat} (hne : ids ≠ []) (hne' : ids' ≠ [])
    (h : numbersText ids = numbersText ids') : ids = ids' := by
  obtain ⟨n, ns, rfl⟩ := List.exists_cons_of_ne_nil hne
  obtain ⟨n', ns', rfl⟩ := List.exists_cons_of_ne_nil hne'
  exact numbersRest_inj (congrArg (comma :: ·) h)

/-- A separator is no closing brace. -/
def IsSeparator (c : UInt8) : Prop := c = openBrace ∨ c = comma

theorem idsFrom_inj {c : UInt8} (hc : IsSeparator c) {ids ids' : List Nat}
    (h : idsFrom c ids = idsFrom c ids') :
    ids = ids' := by
  have hbrace : ∀ {ids : List Nat}, ids ≠ [] → idsFrom c [] ≠ idsFrom c ids := by
    intro ids hne heq
    rw [idsFrom, if_pos rfl, idsFrom, if_neg hne] at heq
    rcases hc with rfl | rfl
    · exact absurd (List.cons.inj (List.cons.inj heq).2).1 (by decide)
    · exact absurd (List.cons.inj heq).1 (by decide)
  by_cases hnil : ids = []
  · subst hnil
    by_contra hne
    exact hbrace (fun h₀ => hne h₀.symm) h
  · by_cases hnil' : ids' = []
    · subst hnil'
      exact absurd h.symm (hbrace hnil)
    · rw [idsFrom, if_neg hnil, idsFrom, if_neg hnil'] at h
      have h₁ := List.append_cancel_left (List.cons.inj h).2
      have h₂ := (List.cons.inj (List.cons.inj h₁).2).2
      exact numbersText_inj hnil hnil' (List.append_cancel_right h₂)

/-- No string member is the array. -/
theorem member_ne_idsFrom {c : UInt8} (hc : IsSeparator c) {k v r : Bytes} (hk : quote ∉ k) (ids : List Nat) :
    c :: (memberText k v ++ r) ≠ idsFrom c ids := by
  intro h
  unfold idsFrom at h
  split at h
  · split at h
    · exact absurd (List.cons.inj (List.cons.inj h).2).1 (show quote ≠ closeBrace by decide)
    · next hbrace =>
      rcases hc with rfl | rfl
      · exact hbrace rfl
      · exact absurd (List.cons.inj h).1 (by decide)
  · have h := (List.cons.inj (List.cons.inj h).2).2
    have hword : k ++ quote :: (colon :: (quoted v ++ r))
        = ascii "msg_ids" ++ quote :: (colon :: openBracket :: (numbersText ids ++ [closeBrace])) := by
      simpa [memberText, quoted] using h
    have hcolon := (List.cons.inj (delimited_inj hk (by decide) hword).2).2
    exact absurd (List.cons.inj hcolon).1 (show quote ≠ openBracket by decide)

theorem memberText_inj {k k' v v' r r' : Bytes} (hk : quote ∉ k) (hk' : quote ∉ k') (hv : quote ∉ v)
    (hv' : quote ∉ v') (h : memberText k v ++ r = memberText k' v' ++ r') : k = k' ∧ v = v' ∧ r = r' := by
  have hword : k ++ quote :: (colon :: quote :: (v ++ quote :: r))
      = k' ++ quote :: (colon :: quote :: (v' ++ quote :: r')) := by
    simpa [memberText, quoted] using h
  obtain ⟨rfl, hrest⟩ := delimited_inj hk hk' hword
  have hvalue := (List.cons.inj (List.cons.inj hrest).2).2
  obtain ⟨rfl, rfl⟩ := delimited_inj hv hv' hvalue
  exact ⟨rfl, rfl, rfl⟩

/-- The object behind the separator `c`. -/
def objectFrom (c : UInt8) (ms : List (Bytes × Bytes)) (ids : List Nat) : Bytes :=
  membersOpen c ms ++ idsFrom (if ms = [] then c else comma) ids

theorem objectFrom_cons (c : UInt8) (k v : Bytes) (ms : List (Bytes × Bytes)) (ids : List Nat) :
    objectFrom c ((k, v) :: ms) ids = c :: (memberText k v ++ objectFrom comma ms ids) := by
  have hc : (if ms = [] then comma else comma) = comma := ite_self _
  simp only [objectFrom, membersOpen, List.cons_append, List.append_assoc, hc]
  rfl

theorem objectFrom_inj : ∀ {ms ms' : List (Bytes × Bytes)} {c : UInt8} {ids ids' : List Nat},
    IsSeparator c → (∀ m ∈ ms, quote ∉ m.1 ∧ quote ∉ m.2) → (∀ m ∈ ms', quote ∉ m.1 ∧ quote ∉ m.2) →
    objectFrom c ms ids = objectFrom c ms' ids' → ms = ms' ∧ ids = ids' := by
  intro ms
  induction ms with
  | nil =>
    intro ms' c ids ids' hc _ hms' h
    cases ms' with
    | nil => exact ⟨rfl, idsFrom_inj hc h⟩
    | cons m' ms' =>
      obtain ⟨k', v'⟩ := m'
      rw [objectFrom_cons] at h
      exact absurd h.symm (member_ne_idsFrom hc (hms' (k', v') List.mem_cons_self).1 ids)
  | cons m ms ih =>
    intro ms' c ids ids' hc hms hms' h
    obtain ⟨k, v⟩ := m
    obtain ⟨hk, hv⟩ := hms (k, v) List.mem_cons_self
    cases ms' with
    | nil =>
      rw [objectFrom_cons] at h
      exact absurd h (member_ne_idsFrom hc hk ids')
    | cons m' ms' =>
      obtain ⟨k', v'⟩ := m'
      obtain ⟨hk', hv'⟩ := hms' (k', v') List.mem_cons_self
      rw [objectFrom_cons, objectFrom_cons] at h
      obtain ⟨rfl, rfl, hrest⟩ := memberText_inj hk hk' hv hv' (List.cons.inj h).2
      obtain ⟨rfl, rfl⟩ := ih (Or.inr rfl) (fun m hm => hms m (List.mem_cons_of_mem _ hm))
        (fun m hm => hms' m (List.mem_cons_of_mem _ hm)) hrest
      exact ⟨rfl, rfl⟩

/-! ## 3. The members determine the values -/

theorem mem_optMembers {m : Bytes × Bytes} :
    ∀ {kvs : List (Bytes × Bytes)}, m ∈ optMembers kvs → m ∈ kvs := by
  intro kvs
  induction kvs with
  | nil => exact fun h => h
  | cons kv kvs ih =>
    intro h
    obtain ⟨k, v⟩ := kv
    rcases List.mem_append.mp h with h | h
    · rw [(mem_optMember h).1]
      exact List.mem_cons_self
    · exact List.mem_cons_of_mem _ (ih h)

/-- With the same names, each once, the members that are not empty give back every value. -/
theorem optMembers_inj : ∀ {kvs kvs' : List (Bytes × Bytes)}, kvs.map Prod.fst = kvs'.map Prod.fst →
    (kvs.map Prod.fst).Nodup → optMembers kvs = optMembers kvs' → kvs = kvs' := by
  intro kvs
  induction kvs with
  | nil =>
    intro kvs' hkeys _ _
    exact (List.map_eq_nil_iff.mp hkeys.symm).symm
  | cons kv kvs ih =>
    intro kvs' hkeys hnodup h
    cases kvs' with
    | nil => exact absurd hkeys (by simp)
    | cons kv' kvs' =>
      obtain ⟨k, v⟩ := kv
      obtain ⟨k', v'⟩ := kv'
      simp only [List.map_cons, List.cons.injEq, List.nodup_cons] at hkeys hnodup
      obtain ⟨rfl, hkeys⟩ := hkeys
      obtain ⟨hk, hnodup⟩ := hnodup
      have hnone : ∀ {l : List (Bytes × Bytes)}, k ∉ l.map Prod.fst → valueOf k (optMembers l) = [] := by
        intro l hl
        refine valueOf_of_not_key fun m hm hkm => hl ?_
        rw [hkm]
        exact List.mem_map_of_mem (mem_optMembers hm)
      have hv := congrArg (valueOf k) h
      rw [optMembers, optMembers, valueOf_optMember v (hnone hk),
        valueOf_optMember v' (hnone (hkeys ▸ hk))] at hv
      subst hv
      rw [ih hkeys hnodup (List.append_cancel_left h)]

theorem optDecimal_inj {n k : Nat} (h : optDecimal n = optDecimal k) : n = k := by
  unfold optDecimal at h
  split at h
  · split at h
    · next hn hk => rw [hn, hk]
    · exact absurd h.symm (toDecimal_ne_nil k)
  · split at h
    · exact absurd h (toDecimal_ne_nil n)
    · exact toDecimal_inj h

theorem namedValues_names {msgType : UInt16} (ht : msgType ∈ clientTypes) (f f' : ProtoFields) :
    (namedValues msgType f).map Prod.fst = (namedValues msgType f').map Prod.fst ∧
    ((namedValues msgType f).map Prod.fst).Nodup := by
  simp only [clientTypes, List.mem_cons, List.not_mem_nil, or_false] at ht
  rcases ht with rfl | rfl | rfl | rfl | rfl | rfl
  · exact ⟨rfl, show [ascii "sender", ascii "target", ascii "message", ascii "timestamp", ascii "msg_id"].Nodup
      by decide⟩
  · exact ⟨rfl, show [ascii "sender"].Nodup by decide⟩
  · exact ⟨rfl, show [ascii "username", ascii "password"].Nodup by decide⟩
  · exact ⟨rfl, show [ascii "last_timestamp", ascii "peer"].Nodup by decide⟩
  · exact ⟨rfl, show [ascii "friend"].Nodup by decide⟩
  · exact ⟨rfl, show [ascii "result", ascii "type", ascii "msg_id", ascii "user", ascii "message"].Nodup
      by decide⟩

/-- A value that is written is one of the strings, or a number. -/
theorem namedValues_value {msgType : UInt16} (ht : msgType ∈ clientTypes) {f : ProtoFields} :
    ∀ m ∈ namedValues msgType f,
      quote ∉ m.1 ∧ (m.2 ∈ emittedStrings msgType f ∨ ∃ n, m.2 = optDecimal n) := by
  simp only [clientTypes, List.mem_cons, List.not_mem_nil, or_false] at ht
  rcases ht with rfl | rfl | rfl | rfl | rfl | rfl
  · have h : ∀ m ∈ [(ascii "sender", f.sender), (ascii "target", f.target), (ascii "message", f.message),
        (ascii "timestamp", f.timestamp), (ascii "msg_id", optDecimal f.msgId)],
        quote ∉ m.1 ∧ (m.2 ∈ [f.sender, f.target, f.message, f.timestamp] ∨ ∃ n, m.2 = optDecimal n) := by
      simp only [List.forall_mem_cons]
      exact ⟨⟨by decide, .inl (by simp)⟩, ⟨by decide, .inl (by simp)⟩, ⟨by decide, .inl (by simp)⟩,
        ⟨by decide, .inl (by simp)⟩, ⟨by decide, .inr ⟨_, rfl⟩⟩, fun m hm => absurd hm List.not_mem_nil⟩
    exact h
  · intro m hm
    obtain rfl := List.mem_singleton.mp hm
    exact ⟨show quote ∉ ascii "sender" by decide, .inl (List.mem_singleton_self _)⟩
  · have h : ∀ m ∈ [(ascii "username", f.username), (ascii "password", f.password)],
        quote ∉ m.1 ∧ (m.2 ∈ [f.username, f.password] ∨ ∃ n, m.2 = optDecimal n) := by
      simp only [List.forall_mem_cons]
      exact ⟨⟨by decide, .inl (by simp)⟩, ⟨by decide, .inl (by simp)⟩, fun m hm => absurd hm List.not_mem_nil⟩
    exact h
  · have h : ∀ m ∈ [(ascii "last_timestamp", f.lastTs), (ascii "peer", f.peer)],
        quote ∉ m.1 ∧ (m.2 ∈ [f.lastTs, f.peer] ∨ ∃ n, m.2 = optDecimal n) := by
      simp only [List.forall_mem_cons]
      exact ⟨⟨by decide, .inl (by simp)⟩, ⟨by decide, .inl (by simp)⟩, fun m hm => absurd hm List.not_mem_nil⟩
    exact h
  · intro m hm
    obtain rfl := List.mem_singleton.mp hm
    exact ⟨show quote ∉ ascii "friend" by decide, .inl (List.mem_singleton_self _)⟩
  · have h : ∀ m ∈ [(ascii "result", f.result), (ascii "type", optDecimal f.ackType),
        (ascii "msg_id", optDecimal f.msgId), (ascii "user", f.user), (ascii "message", f.errMsg)],
        quote ∉ m.1 ∧ (m.2 ∈ [f.result, f.user, f.errMsg] ∨ ∃ n, m.2 = optDecimal n) := by
      simp only [List.forall_mem_cons]
      exact ⟨⟨by decide, .inl (by simp)⟩, ⟨by decide, .inr ⟨_, rfl⟩⟩, ⟨by decide, .inr ⟨_, rfl⟩⟩,
        ⟨by decide, .inl (by simp)⟩, ⟨by decide, .inl (by simp)⟩, fun m hm => absurd hm List.not_mem_nil⟩
    exact h

theorem namedValues_no_quote {msgType : UInt16} (ht : msgType ∈ clientTypes) {f : ProtoFields}
    (hq : ∀ v ∈ emittedStrings msgType f, quote ∉ v) :
    ∀ m ∈ optMembers (namedValues msgType f), quote ∉ m.1 ∧ quote ∉ m.2 := by
  intro m hm
  obtain ⟨hk, hv | ⟨n, hn⟩⟩ := namedValues_value ht m (mem_optMembers hm)
  · exact ⟨hk, hq m.2 hv⟩
  · rw [hn]
    exact ⟨hk, not_mem_optDecimal (by decide) n⟩

/-- An object of one member ends with its value, whatever that is. -/
theorem objectText_optMember_inj {k v v' : Bytes}
    (h : objectText (optMember k v) = objectText (optMember k v')) :
    v = v' := by
  have hone : ∀ {w : Bytes}, w ≠ [] → objectText (optMember k w)
      = openBrace :: quote :: ((k ++ [quote, colon, quote]) ++ (w ++ [quote, closeBrace])) := by
    intro w hw
    simp [optMember, hw, objectText, membersFrom, memberText, quoted]
  have hnone : objectText (optMember k []) = [openBrace, closeBrace] := rfl
  by_cases hv : v = []
  · subst hv
    by_contra hv'
    rw [hnone, hone fun h₀ => hv' h₀.symm] at h
    exact absurd (List.cons.inj (List.cons.inj h).2).1 (by decide)
  · by_cases hv' : v' = []
    · subst hv'
      rw [hnone, hone hv] at h
      exact absurd (List.cons.inj (List.cons.inj h).2).1 (by decide)
    · rw [hone hv, hone hv'] at h
      exact List.append_cancel_right (List.append_cancel_left (List.cons.inj (List.cons.inj h).2).2)

/-- **The text determines the values that are written**, if they hold no quotes. -/
theorem renderJson_inj {msgType : UInt16} (ht : msgType ∈ clientTypes) {f f' : ProtoFields}
    (hq : ∀ v ∈ emittedStrings msgType f, quote ∉ v) (hq' : ∀ v ∈ emittedStrings msgType f', quote ∉ v)
    (h : renderJson msgType f = renderJson msgType f') :
    emittedStrings msgType f = emittedStrings msgType f' ∧
    emittedNumbers msgType f = emittedNumbers msgType f' := by
  rw [renderJson_clientType ht, renderJson_clientType ht] at h
  obtain ⟨hms, hids⟩ := objectFrom_inj (c := openBrace) (Or.inl rfl) (namedValues_no_quote ht hq)
    (namedValues_no_quote ht hq') h
  obtain ⟨hnames, hnodup⟩ := namedValues_names ht f f'
  have hvalues := optMembers_inj hnames hnodup hms
  simp only [clientTypes, List.mem_cons, List.not_mem_nil, or_false] at ht
  rcases ht with rfl | rfl | rfl | rfl | rfl | rfl
  all_goals simp [namedValues] at hvalues hids
  · obtain ⟨h₁, h₂, h₃, h₄, h₅⟩ := hvalues
    simp [emittedStrings, emittedNumbers, h₁, h₂, h₃, h₄, optDecimal_inj h₅]
  · simp [emittedStrings, emittedNumbers, hvalues]
  · simp [emittedStrings, emittedNumbers, hvalues]
  · simp [emittedStrings, emittedNumbers, hvalues]
  · simp [emittedStrings, emittedNumbers, hvalues]
  · obtain ⟨h₁, h₂, h₃, h₄, h₅⟩ := hvalues
    simp [emittedStrings, emittedNumbers, h₁, h₄, h₅, optDecimal_inj h₂, optDecimal_inj h₃, hids]

/-- The types whose texts have one string member and nothing else. -/
def oneString (msgType : UInt16) : Prop := msgType = 3 ∨ msgType = 9

theorem renderJson_inj_oneString {msgType : UInt16} (ht : oneString msgType) {f f' : ProtoFields}
    (h : renderJson msgType f = renderJson msgType f') :
    emittedStrings msgType f = emittedStrings msgType f' ∧
    emittedNumbers msgType f = emittedNumbers msgType f' := by
  rcases ht with rfl | rfl
  · rw [renderJson_online, renderJson_online] at h
    exact ⟨congrArg (fun v => [v]) (objectText_optMember_inj h), rfl⟩
  · rw [renderJson_friend, renderJson_friend] at h
    exact ⟨congrArg (fun v => [v]) (objectText_optMember_inj h), rfl⟩

/-! ## 4. Bodies -/

theorem renderJson_ne_nil {msgType : UInt16} (ht : msgType ∈ clientTypes) (f : ProtoFields) :
    renderJson msgType f ≠ [] := by
  rw [renderJson_clientType ht, ← JsonOut.addIds_ofMembers]
  simp

/-- **Decoded JSON is unambiguous where no value holds a quote, or there is but one**: two bodies
    of varint and length-delimited fields that differ in a value that is written are decoded to
    two texts. -/
theorem decoded_unambiguous {msgType : UInt16} (ht : msgType ∈ clientTypes) {fs fs' : List Field}
    {body body' : Bytes} {f f' : ProtoFields} (hbody : BodyText fs body) (hbody' : BodyText fs' body')
    (hmax : body.length ≤ stringMax) (hmax' : body'.length ≤ stringMax)
    (hread : readFields msgType fs {} = some f) (hread' : readFields msgType fs' {} = some f')
    (hq : oneString msgType ∨ ∀ v ∈ emittedStrings msgType f ++ emittedStrings msgType f', quote ∉ v)
    (hne : emittedStrings msgType f ≠ emittedStrings msgType f' ∨
      emittedNumbers msgType f ≠ emittedNumbers msgType f') :
    ∃ fuel json fuel' json', decodeProtoToJson fuel msgType body = some json ∧
      decodeProtoToJson fuel' msgType body' = some json' ∧ json ≠ json' := by
  obtain ⟨fuel, hj⟩ := (decodeProtoToJson_bodyText msgType hbody
    (Nat.lt_of_le_of_lt hmax (by decide)) _).mpr rfl
  obtain ⟨fuel', hj'⟩ := (decodeProtoToJson_bodyText msgType hbody'
    (Nat.lt_of_le_of_lt hmax' (by decide)) _).mpr rfl
  refine ⟨fuel, _, fuel', _, hj, hj', fun h => ?_⟩
  rw [hread, hread'] at h
  have hempty : ∀ {g : ProtoFields}, readFields msgType [] {} = some g → g = {} :=
    fun hg => (Option.some.inj hg).symm
  -- an empty body gives the empty text, which is no object
  by_cases hnil : fs = []
  · subst hnil
    rw [if_pos rfl] at h
    by_cases hnil' : fs' = []
    · subst hnil'
      rw [hempty hread, hempty hread'] at hne
      rcases hne with hne | hne
      · exact hne rfl
      · exact hne rfl
    · rw [if_neg hnil'] at h
      exact renderJson_ne_nil ht f' h.symm
  · rw [if_neg hnil] at h
    by_cases hnil' : fs' = []
    · rw [if_pos hnil'] at h
      exact renderJson_ne_nil ht f h
    · rw [if_neg hnil'] at h
      obtain ⟨hstrings, hnumbers⟩ : emittedStrings msgType f = emittedStrings msgType f' ∧
          emittedNumbers msgType f = emittedNumbers msgType f' := by
        rcases hq with hone | hq
        · exact renderJson_inj_oneString hone h
        · exact renderJson_inj ht (fun v hv => hq v (List.mem_append_left _ hv))
            (fun v hv => hq v (List.mem_append_right _ hv)) h
      rcases hne with hne | hne
      · exact hne hstrings
      · exact hne hnumbers

theorem decoded_unambiguous_passwords : ∃ fuel json fuel' json',
    decodeProtoToJson fuel 4 (putString 1 (ascii "alice") ++ putString 2 (ascii "s3cret")) = some json ∧
    decodeProtoToJson fuel' 4 (putString 1 (ascii "alice") ++ putString 2 (ascii "secret")) = some json' ∧
    json ≠ json' :=
  decoded_unambiguous (by decide)
    ((bodyText_putString (by decide) (by decide)).append (bodyText_putString (by decide) (by decide)))
    ((bodyText_putString (by decide) (by decide)).append (bodyText_putString (by decide) (by decide)))
    (by decide) (by decide)
    (show _ = some { username := ascii "alice", password := ascii "s3cret" } by decide)
    (show _ = some { username := ascii "alice", password := ascii "secret" } by decide)
    (Or.inr (by decide)) (Or.inl (by decide))

/-- A name that brings its own password. -/
def injectedName : Bytes := ascii "a\",\"password\":\"b"

/-- A field of eight fixed bytes behind a name. -/
def nameAndFixed (name : Bytes) : List Field := optString 1 name ++ [⟨9, .other 1 (List.replicate 8 0)⟩]

def nameAndFixedText (name : Bytes) : Bytes := putString 1 name ++ (writeKey 9 1 ++ List.replicate 8 0)

theorem bodyText_nameAndFixed {name : Bytes} (h : name.length < wordSize) :
    BodyText (nameAndFixed name) (nameAndFixedText name) := by
  refine (bodyText_putString (by decide) h).append ?_
  rw [← List.append_nil (writeKey 9 1 ++ List.replicate 8 0)]
  exact .cons (.other (by decide) (isUint64_writeKey (by decide) (by decide)) (by decide)) .nil

/-- The name `a","password":"b` alone and the name `a` with the password `b` are decoded to one
    text; and so are any two bodies with a fixed-width field, to the empty one. -/
theorem decoded_ambiguous :
    (∃ f f' json,
      BodyText (optString 1 injectedName) (putString 1 injectedName) ∧
      BodyText (optString 1 (ascii "a") ++ optString 2 (ascii "b"))
        (putString 1 (ascii "a") ++ putString 2 (ascii "b")) ∧
      readFields 4 (optString 1 injectedName) {} = some f ∧
      readFields 4 (optString 1 (ascii "a") ++ optString 2 (ascii "b")) {} = some f' ∧
      emittedStrings 4 f ≠ emittedStrings 4 f' ∧
      decodeProtoToJson 2 4 (putString 1 injectedName) = some json ∧
      decodeProtoToJson 2 4 (putString 1 (ascii "a") ++ putString 2 (ascii "b")) = some json) ∧
    BodyText (nameAndFixed (ascii "a")) (nameAndFixedText (ascii "a")) ∧
    BodyText (nameAndFixed (ascii "b")) (nameAndFixedText (ascii "b")) ∧
    carried 1 (nameAndFixed (ascii "a")) ≠ carried 1 (nameAndFixed (ascii "b")) ∧
    decodeProtoToJson 2 4 (nameAndFixedText (ascii "a")) = some [] ∧
    decodeProtoToJson 2 4 (nameAndFixedText (ascii "b")) = some [] := by
  refine ⟨⟨{ username := injectedName }, { username := ascii "a", password := ascii "b" },
    objectText [(ascii "username", ascii "a"), (ascii "password", ascii "b")], ?_, ?_, ?_, ?_, ?_, ?_, ?_⟩,
    bodyText_nameAndFixed (by decide), bodyText_nameAndFixed (by decide), by decide, by decide,
    by decide⟩
  · exact bodyText_putString (by decide) (by decide)
  · exact (bodyText_putString (by decide) (by decide)).append (bodyText_putString (by decide) (by decide))
  · decide
  · decide
  · decide
  · decide
  · decide

end EpollChat
