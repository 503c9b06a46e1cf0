import EpollChat.Proof.Wire.Members

/-!
# The decoder's JSON is an object of string members

`addKV` and `addKVNum` build the text of an object from left to right, with `first`
recording whether a comma is due. `ofMembers` is the state they are in after a list of
members, so that the rendering of a message type is the text of its member list
(`renderJson_chat` and so on), and the lookups of `Members` apply to it. An acknowledgement
ends in an array of numbers, which is no string member (`objectWithIds`).
-/

namespace EpollChat

/-! ## 1. Objects, without their closing brace -/

def membersOpen (c : UInt8) : List (Bytes × Bytes) → Bytes
  | [] => []
  | (k, v) :: ms => c :: (memberText k v ++ membersOpen comma ms)

theorem membersFrom_eq : ∀ (ms : List (Bytes × Bytes)) (c : UInt8),
    membersFrom c ms = membersOpen c ms ++ [closeBrace]
  | [], _ => rfl
  | (k, v) :: ms, c => by simp [membersFrom, membersOpen, membersFrom_eq ms comma]

theorem membersOpen_append (m : Bytes × Bytes) : ∀ (ms : List (Bytes × Bytes)) (c : UInt8),
    membersOpen c (ms ++ [m]) = membersOpen c ms ++ membersOpen (if ms = [] then c else comma) [m]
  | [], c => by simp [membersOpen]
  | (k, v) :: ms, c => by
    have hc : (if ms = [] then comma else comma) = comma := by split <;> rfl
    rw [List.cons_append, membersOpen, membersOpen_append m ms comma, hc,
      show membersOpen c ((k, v) :: ms) = c :: (memberText k v ++ membersOpen comma ms) from rfl]
    simp

/-! ## 2. The rendering state -/

/-- The state of the rendering code after these members. -/
def JsonOut.ofMembers : List (Bytes × Bytes) → JsonOut
  | [] => ⟨[openBrace], true⟩
  | m :: ms => ⟨membersOpen openBrace (m :: ms), false⟩

theorem JsonOut.ofMembers_close (ms : List (Bytes × Bytes)) :
    (JsonOut.ofMembers ms).out ++ [closeBrace] = objectText ms := by
  cases ms with
  | nil => rfl
  | cons m ms => exact (membersFrom_eq (m :: ms) openBrace).symm

/-- A member, unless its value is empty. -/
def optMember (k v : Bytes) : List (Bytes × Bytes) := if v = [] then [] else [(k, v)]

/-- The decimal of a number, and nothing for zero. -/
def optDecimal (n : Nat) : Bytes := if n = 0 then [] else toDecimal n

theorem isDigit_of_mem_optDecimal {n : Nat} {b : UInt8} (h : b ∈ optDecimal n) : isDigit b = true := by
  unfold optDecimal at h
  split at h
  · exact absurd h List.not_mem_nil
  · exact isDigit_of_mem_toDecimal h

theorem not_mem_optDecimal {b : UInt8} (hb : isDigit b = false) (n : Nat) : b ∉ optDecimal n := by
  intro h
  rw [isDigit_of_mem_optDecimal h] at hb
  exact absurd hb (by simp)

/-- A name is not a number. -/
theorem ne_of_not_digit {key v : Bytes} (hk : key.all isDigit = false) (hv : ∀ b ∈ v, isDigit b = true) :
    key ≠ v := by
  rintro rfl
  rw [List.all_eq_true.mpr hv] at hk
  exact absurd hk (by simp)

theorem mem_optMember {k v : Bytes} {m : Bytes × Bytes} (h : m ∈ optMember k v) : m = (k, v) ∧ v ≠ [] := by
  unfold optMember at h
  split at h
  · exact absurd h List.not_mem_nil
  · next hv => exact ⟨List.mem_singleton.mp h, hv⟩

theorem getLast?_ne_backslash {v : Bytes} (h : backslash ∉ v) : v.getLast? ≠ some backslash :=
  fun hl => h (List.mem_of_getLast? hl)

theorem quotable_optDecimal (n : Nat) : Quotable (optDecimal n) :=
  ⟨not_mem_optDecimal (by decide) n, getLast?_ne_backslash (not_mem_optDecimal (by decide) n)⟩

theorem clean_optMember {k v : Bytes} (hk : IsKey k) (hv : Quotable v) : Clean (optMember k v) := by
  intro m hm
  obtain ⟨rfl, -⟩ := mem_optMember hm
  exact ⟨hk, hv.no_quote, hv.last⟩

theorem JsonOut.ofMembers_snoc (ms : List (Bytes × Bytes)) (k v : Bytes) :
    JsonOut.ofMembers (ms ++ [(k, v)])
      = ⟨(if (JsonOut.ofMembers ms).first then (JsonOut.ofMembers ms).out
          else (JsonOut.ofMembers ms).out ++ [comma]) ++ (quoted k ++ (colon :: quoted v)), false⟩ := by
  cases ms with
  | nil => simp [JsonOut.ofMembers, membersOpen, memberText]
  | cons m ms =>
    have h := membersOpen_append (k, v) (m :: ms) openBrace
    simp only [List.cons_append, reduceCtorEq, if_false, membersOpen, memberText,
      List.append_nil] at h
    simp only [JsonOut.ofMembers, List.cons_append, membersOpen, memberText, Bool.false_eq_true,
      if_false, JsonOut.mk.injEq, and_true]
    rw [h]
    simp

theorem JsonOut.addKV_ofMembers (ms : List (Bytes × Bytes)) (k v : Bytes) :
    (JsonOut.ofMembers ms).addKV k v = JsonOut.ofMembers (ms ++ optMember k v) := by
  unfold JsonOut.addKV optMember
  by_cases hv : v = []
  · simp [hv]
  · rw [if_neg hv, if_neg hv, JsonOut.ofMembers_snoc]

theorem JsonOut.addKVNum_ofMembers (ms : List (Bytes × Bytes)) (k : Bytes) (n : Nat) :
    (JsonOut.ofMembers ms).addKVNum k n
      = JsonOut.ofMembers (ms ++ optMember k (optDecimal n)) := by
  unfold JsonOut.addKVNum optMember optDecimal
  by_cases hn : n = 0
  · simp [hn]
  · rw [if_neg hn, if_neg hn, if_neg (toDecimal_ne_nil n), JsonOut.ofMembers_snoc]

/-! ## 3. Every message type -/

/-- The members of a decoded chat message, in the order they are written. -/
def chatMembers (f : ProtoFields) : List (Bytes × Bytes) :=
  optMember (ascii "sender") f.sender ++ (optMember (ascii "target") f.target ++
    (optMember (ascii "message") f.message ++ (optMember (ascii "timestamp") f.timestamp ++
      optMember (ascii "msg_id") (optDecimal f.msgId))))

/-- The members of an acknowledgement, but for the array at its end. -/
def ackMembers (f : ProtoFields) : List (Bytes × Bytes) :=
  optMember (ascii "result") f.result ++ (optMember (ascii "type") (optDecimal f.ackType) ++
    (optMember (ascii "msg_id") (optDecimal f.msgId) ++ (optMember (ascii "user") f.user ++
      optMember (ascii "message") f.errMsg)))

theorem JsonOut.start_eq : (⟨[openBrace], true⟩ : JsonOut) = JsonOut.ofMembers [] := rfl

theorem renderJson_chat (f : ProtoFields) : renderJson 1 f = objectText (chatMembers f) := by
  simp only [renderJson, if_true, JsonOut.start_eq, JsonOut.addKV_ofMembers, JsonOut.addKVNum_ofMembers]
  rw [JsonOut.ofMembers_close]
  simp only [chatMembers, List.nil_append, List.append_assoc]

theorem renderJson_online (f : ProtoFields) :
    renderJson 3 f = objectText (optMember (ascii "sender") f.sender) := by
  simp only [renderJson, JsonOut.start_eq, JsonOut.addKV_ofMembers]
  exact JsonOut.ofMembers_close _

theorem renderJson_login (f : ProtoFields) : renderJson 4 f
    = objectText (optMember (ascii "username") f.username ++ optMember (ascii "password") f.password) := by
  simp only [renderJson, JsonOut.start_eq, JsonOut.addKV_ofMembers]
  exact JsonOut.ofMembers_close _

theorem renderJson_history (f : ProtoFields) : renderJson 7 f
    = objectText (optMember (ascii "last_timestamp") f.lastTs ++ optMember (ascii "peer") f.peer) := by
  simp only [renderJson, JsonOut.start_eq, JsonOut.addKV_ofMembers]
  exact JsonOut.ofMembers_close _

theorem renderJson_friend (f : ProtoFields) :
    renderJson 9 f = objectText (optMember (ascii "friend") f.friendName) := by
  simp only [renderJson, JsonOut.start_eq, JsonOut.addKV_ofMembers]
  exact JsonOut.ofMembers_close _

/-! ## 4. An acknowledgement ends in an array -/

/-- The numbers that follow in an array, down to the closing bracket. -/
def numbersRest : List Nat → Bytes
  | [] => [closeBracket]
  | n :: ns => comma :: (toDecimal n ++ numbersRest ns)

/-- The numbers of an array, down to the closing bracket. -/
def numbersText : List Nat → Bytes
  | [] => [closeBracket]
  | n :: ns => toDecimal n ++ numbersRest ns

theorem numbersText_eq : ∀ ids : List Nat,
    ((ids.map toDecimal).intersperse [comma]).flatten ++ [closeBracket] = numbersText ids
  | [] => rfl
  | [n] => by simp [numbersText, numbersRest]
  | n :: k :: ns => by
    have ih := numbersText_eq (k :: ns)
    simp only [List.map_cons, numbersText, numbersRest] at ih ⊢
    rw [List.intersperse_cons_cons, List.flatten_cons, List.flatten_cons, List.append_assoc,
      List.append_assoc, ih]
    rfl

/-- The end of an object, behind the separator `c`: the array, if there are any numbers. -/
def idsFrom (c : UInt8) (ids : List Nat) : Bytes :=
  if ids = [] then (if c = openBrace then [openBrace, closeBrace] else [closeBrace])
  else c :: (quoted (ascii "msg_ids") ++ (colon :: openBracket :: (numbersText ids ++ [closeBrace])))

/-- An object with an array of numbers behind its string members. -/
def objectWithIds (ms : List (Bytes × Bytes)) (ids : List Nat) : Bytes :=
  membersOpen openBrace ms ++ idsFrom (if ms = [] then openBrace else comma) ids

theorem JsonOut.addIds_ofMembers (ms : List (Bytes × Bytes)) (ids : List Nat) :
    ((JsonOut.ofMembers ms).addIds ids).out ++ [closeBrace] = objectWithIds ms ids := by
  have hnum := numbersText_eq ids
  unfold JsonOut.addIds objectWithIds idsFrom
  cases ms with
  | nil =>
    split
    · rfl
    · rw [← hnum]
      simp [JsonOut.ofMembers, membersOpen]
  | cons m ms =>
    rw [if_neg (show m :: ms ≠ [] by simp)]
    split
    · exact congrArg (_ ++ ·) (if_neg (show comma ≠ openBrace by decide)).symm
    · rw [← hnum]
      simp [JsonOut.ofMembers]

theorem renderJson_ack (f : ProtoFields) : renderJson 13 f = objectWithIds (ackMembers f) f.msgIds := by
  rw [← JsonOut.addIds_ofMembers]
  simp only [renderJson, JsonOut.start_eq, JsonOut.addKV_ofMembers, JsonOut.addKVNum_ofMembers]
  simp only [ackMembers, List.nil_append, List.append_assoc]
  rfl

end EpollChat
