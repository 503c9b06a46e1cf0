import EpollChat.Proof.Pending.Kept
import EpollChat.Proof.Wire.Arrays
import EpollChat.Proof.Wire.ChatBody
import EpollChat.Proof.Wire.Login

/-!
# What a client's acknowledgement removes

The ids of an acknowledgement travel as varints, as decimals in a JSON array, as 64-bit
numbers again and as the arguments of a Lua script. The user's name stands in the same JSON
text, and may be the name of a key itself. Both are followed from the body to the tables.
-/

namespace EpollChat

open Lib Pb

/-! ## 1. What the decoder files -/

/-- A field an acknowledgement may have: a number, or a string that is neither a result nor an
    error text. -/
def Pb.Field.InAck (fd : Field) : Prop :=
  match fd.payload with
  | .varint _ => True
  | .string _ => fd.number ≠ 1 ∧ fd.number ≠ 2 ∧ fd.number ≠ 5
  | .other _ _ => False

/-- A field besides number 3 that the decoder takes a message id from. -/
def Pb.Field.setsId (fd : Field) : Bool :=
  match fd.payload with
  | .varint _ => fd.number == 4
  | .string _ => fd.number == 3
  | .other _ _ => false

theorem setString_ack (f : ProtoFields) {n : Nat} (v : Bytes) (h : n ≠ 1 ∧ n ≠ 2 ∧ n ≠ 5) :
    (f.setString 13 n v).user = (if n = 4 then v else f.user) ∧
    (f.setString 13 n v).result = f.result ∧ (f.setString 13 n v).errMsg = f.errMsg ∧
    (f.setString 13 n v).msgIds = f.msgIds ∧
    (n ≠ 3 → (f.setString 13 n v).msgId = f.msgId) := by
  obtain ⟨h₁, h₂, h₅⟩ := h
  unfold ProtoFields.setString
  rw [if_neg h₁, if_neg h₂, if_neg h₅]
  by_cases h₃ : n = 3
  · have h₄ : n ≠ 4 := by omega
    rw [if_pos h₃, if_pos rfl, if_neg h₄]
    split <;> exact ⟨rfl, rfl, rfl, rfl, fun h => absurd h₃ h⟩
  · rw [if_neg h₃]
    by_cases h₄ : n = 4
    · rw [if_pos h₄, if_pos rfl, if_pos h₄]
      exact ⟨rfl, rfl, rfl, rfl, fun _ => rfl⟩
    · rw [if_neg h₄, if_neg h₄]
      exact ⟨rfl, rfl, rfl, rfl, fun _ => rfl⟩

theorem setVarint_ack (f : ProtoFields) (n v : Nat) :
    (f.setVarint 13 n v).user = f.user ∧ (f.setVarint 13 n v).result = f.result ∧
    (f.setVarint 13 n v).errMsg = f.errMsg ∧
    (f.setVarint 13 n v).msgIds = (if n = 5 then f.msgIds ++ [v] else f.msgIds) ∧
    (n ≠ 4 → (f.setVarint 13 n v).msgId = if n = 3 then v else f.msgId) := by
  simp only [ProtoFields.setVarint, and_true]
  by_cases h₂ : n = 2
  · subst h₂
    exact ⟨rfl, rfl, rfl, rfl, fun _ => rfl⟩
  by_cases h₃ : n = 3
  · subst h₃
    exact ⟨rfl, rfl, rfl, rfl, fun _ => rfl⟩
  simp only [if_neg h₂, if_neg h₃]
  by_cases h₄ : n = 4
  · subst h₄
    exact ⟨rfl, rfl, rfl, rfl, fun h => absurd rfl h⟩
  simp only [if_neg h₄]
  by_cases h₅ : n = 5
  · simp [h₅]
  · simp [h₅]

/-- **The decoder files the name and the ids an acknowledgement carries.** -/
theorem readFields_ack : ∀ {fs : List Field} {f : ProtoFields}, (∀ fd ∈ fs, fd.InAck) →
    ∃ f', readFields 13 fs f = some f' ∧ f'.user = lastString 4 f.user fs ∧
      f'.result = f.result ∧ f'.errMsg = f.errMsg ∧ f'.msgIds = f.msgIds ++ varints 5 fs ∧
      ((∀ fd ∈ fs, fd.setsId = false) → f'.msgId = (varints 3 fs).foldl (fun _ v => v) f.msgId) := by
  intro fs
  induction fs with
  | nil => exact fun _ => ⟨_, rfl, rfl, rfl, rfl, (List.append_nil _).symm, fun _ => rfl⟩
  | cons fd fs ih =>
    intro f hin
    obtain ⟨n, payload⟩ := fd
    have hfd := hin _ List.mem_cons_self
    have hrest : ∀ fd ∈ fs, fd.InAck := fun fd hm => hin fd (List.mem_cons_of_mem _ hm)
    cases payload with
    | varint v =>
      obtain ⟨hu, hr, he, hids, hid⟩ := setVarint_ack f n v
      obtain ⟨f', hread, hu', hr', he', hids', hid'⟩ := ih (f := f.setVarint 13 n v) hrest
      refine ⟨f', hread, hu'.trans (by rw [hu]; rfl), hr'.trans hr, he'.trans he, ?_, fun hset => ?_⟩
      · rw [hids', hids]
        by_cases h₅ : n = 5
        · simp [h₅, varints]
        · simp [h₅, varints]
      · have h₄ : n ≠ 4 := by simpa [Field.setsId] using hset _ List.mem_cons_self
        rw [hid' fun fd hm => hset fd (List.mem_cons_of_mem _ hm), hid h₄]
        by_cases h₃ : n = 3
        · simp [h₃, varints]
        · simp [h₃, varints]
    | string v =>
      obtain ⟨hu, hr, he, hids, hid⟩ := setString_ack f v hfd
      obtain ⟨f', hread, hu', hr', he', hids', hid'⟩ := ih (f := f.setString 13 n v) hrest
      refine ⟨f', hread, hu'.trans (by rw [hu]; rfl), hr'.trans hr, he'.trans he, ?_, fun hset => ?_⟩
      · rw [hids', hids]
        rfl
      · have h₃ : n ≠ 3 := by simpa [Field.setsId] using hset _ List.mem_cons_self
        rw [hid' fun fd hm => hset fd (List.mem_cons_of_mem _ hm), hid h₃]
        rfl
    | other wt raw => exact absurd hfd (by simp [Field.InAck])

/-! ## 2. The text of an acknowledgement -/

/-- The members that stand before the name. -/
def ackNumbers (f : ProtoFields) : List (Bytes × Bytes) :=
  optMember (ascii "type") (optDecimal f.ackType) ++ optMember (ascii "msg_id") (optDecimal f.msgId)

theorem ackMembers_eq {f : ProtoFields} (hr : f.result = []) (he : f.errMsg = []) (hu : f.user ≠ []) :
    ackMembers f = ackNumbers f ++ [(ascii "user", f.user)] := by
  have hopt : ∀ k : Bytes, optMember k [] = [] := fun k => if_pos rfl
  have huser : optMember (ascii "user") f.user = [(ascii "user", f.user)] := if_neg hu
  rw [ackMembers, hr, he, hopt, hopt, huser, List.nil_append, List.append_nil, ackNumbers,
    List.append_assoc]

theorem objectWithIds_snoc (ms : List (Bytes × Bytes)) (k v : Bytes) (ids : List Nat) :
    objectWithIds (ms ++ [(k, v)]) ids = membersOpen openBrace ms ++
      ((if ms = [] then openBrace else comma) :: (memberText k v ++ idsFrom comma ids)) := by
  rw [objectWithIds, if_neg (by simp), membersOpen_append, List.append_assoc]
  simp [membersOpen]

/-- A number of the acknowledgement: its name, and digits. -/
theorem mem_ackNumbers {f : ProtoFields} {m : Bytes × Bytes} (h : m ∈ ackNumbers f) :
    (m.1 = ascii "type" ∨ m.1 = ascii "msg_id") ∧ ∀ b ∈ m.2, isDigit b = true := by
  rcases List.mem_append.mp h with h | h
  · obtain ⟨rfl, -⟩ := mem_optMember h
    exact ⟨Or.inl rfl, fun b hb => isDigit_of_mem_optDecimal hb⟩
  · obtain ⟨rfl, -⟩ := mem_optMember h
    exact ⟨Or.inr rfl, fun b hb => isDigit_of_mem_optDecimal hb⟩

theorem ackNumbers_quiet {f : ProtoFields} {key : Bytes} (hdigit : key.all isDigit = false)
    {m : Bytes × Bytes} (h : m ∈ ackNumbers f) : quote ∉ m.1 ∧ quote ∉ m.2 ∧ key ≠ m.2 := by
  obtain ⟨hname, hdigits⟩ := mem_ackNumbers h
  refine ⟨?_, fun hq => absurd (hdigits _ hq) (by decide), ne_of_not_digit hdigit hdigits⟩
  rcases hname with hname | hname
  · rw [hname]
    decide
  · rw [hname]
    decide

/-- The search for a key that is the name of none of the numbers goes behind them. -/
theorem seek_ack {f : ProtoFields} {key u : Bytes} (ids : List Nat) (hk : IsKey key)
    (hdigit : key.all isDigit = false) (hnot : ∀ m ∈ ackNumbers f, key ≠ m.1) (hq : quote ∉ u) :
    seek (quoted key) (objectWithIds (ackNumbers f ++ [(ascii "user", u)]) ids)
      = if key = ascii "user" then some (memberText (ascii "user") u ++ idsFrom comma ids)
        else if key = u then some (quoted u ++ idsFrom comma ids)
        else seek (quoted key) (idsFrom comma ids) := by
  have hmember : ∀ {c : UInt8}, c ≠ quote →
      seek (quoted key) (c :: (memberText (ascii "user") u ++ idsFrom comma ids))
        = if key = ascii "user" then some (memberText (ascii "user") u ++ idsFrom comma ids)
          else if key = u then some (quoted u ++ idsFrom comma ids)
          else seek (quoted key) (idsFrom comma ids) :=
    fun hc => seek_member hk hc (by decide) hq (not_key_at_idsFrom hk ids)
  rw [objectWithIds_snoc]
  by_cases hnil : ackNumbers f = []
  · rw [hnil, if_pos rfl]
    exact hmember (by decide)
  · rw [if_neg hnil]
    have htail : ¬ key ++ [quote] <+: comma :: (memberText (ascii "user") u ++ idsFrom comma ids) :=
      not_key_at_comma hk
    rcases seek_membersOpen hk htail (c := openBrace) (by decide)
      (fun m hm => ackNumbers_quiet hdigit hm) with ⟨m, hm, hmk, -⟩ | ⟨-, hr⟩
    · exact absurd hmk.symm (hnot m hm)
    · rw [hr]
      exact hmember (by decide)

/-- `std::stoull` of a decimal. -/
theorem stoullText_toDecimal {n : Nat} (h : n < 2 ^ 64) : stoullText (toDecimal n) = some n := by
  obtain ⟨d, ds, hd⟩ := List.exists_cons_of_ne_nil (toDecimal_ne_nil n)
  have hdigit : isDigit d = true := isDigit_of_mem_toDecimal (n := n) (by rw [hd]; exact List.mem_cons_self)
  have hne : ∀ b : UInt8, isDigit b = false → d ≠ b := by
    rintro b hb rfl
    exact absurd hdigit (by simp [hb])
  have hspace : (toDecimal n).dropWhile isSpace = toDecimal n := by
    rw [hd, List.dropWhile_cons_of_neg]
    have hrange : 48 ≤ d.toNat := by
      simp only [isDigit, Bool.and_eq_true, decide_eq_true_eq, UInt8.le_iff_toNat_le] at hdigit
      exact hdigit.1
    have hnot : ¬ d ≤ 13 := by
      rw [UInt8.le_iff_toNat_le]
      exact fun h13 => absurd (Nat.le_trans hrange h13) (by decide)
    simp [isSpace, hne space (by decide), hnot]
  have hminus : ((toDecimal n).head? == some 45) = false := by
    rw [hd]
    simpa using hne 45 (by decide)
  have hplus : ((toDecimal n).head? == some 43) = false := by
    rw [hd]
    simpa using hne 43 (by decide)
  have hdigits : (toDecimal n).takeWhile isDigit = toDecimal n :=
    List.takeWhile_eq_self_iff.mpr fun b hb => isDigit_of_mem_toDecimal hb
  simp only [stoullText, hspace, hminus, hplus, Bool.or_self, Bool.false_eq_true, if_false, hdigits,
    if_neg (toDecimal_ne_nil n), stoull_toDecimal h]

/-! ## 3. The arguments of the task -/

section

variable {f : ProtoFields} {u : Bytes} (hr : f.result = []) (he : f.errMsg = []) (huser : f.user = u)
  (hne : u ≠ []) (hplain : Plain u) (hq : quote ∉ u)

include hr he huser hne

theorem renderJson_user :
    renderJson 13 f = objectWithIds (ackNumbers f ++ [(ascii "user", u)]) f.msgIds := by
  rw [renderJson_ack, ackMembers_eq hr he (by rw [huser]; exact hne), huser]

include hq

/-- **The ids of the array**, even where the user's name is that of the array. -/
theorem parse_msg_ids (hlt : ∀ n ∈ f.msgIds, n < 2 ^ 64) :
    parseJsonUint64ArrayFast (renderJson 13 f) (ascii "msg_ids") 256 = f.msgIds.take 256 := by
  have hnot : ∀ m ∈ ackNumbers f, ascii "msg_ids" ≠ m.1 := by
    intro m hm
    rcases (mem_ackNumbers hm).1 with h | h
    · rw [h]; decide
    · rw [h]; decide
  have hseek := seek_ack f.msgIds (by decide) (by decide) hnot hq
  rw [if_neg (by decide), ← renderJson_user hr he huser hne] at hseek
  by_cases hids : f.msgIds = []
  · rw [hids, List.take_nil, parseJsonUint64ArrayFast, if_neg (by decide), hseek, hids]
    split
    · next h => rfl
    · next r h =>
      split at h
      · next hu =>
        obtain rfl := Option.some.inj h
        rw [← hu, List.drop_left]
        rfl
      · rw [seek_idsFrom (by decide) (by decide), if_neg fun h => h.1 rfl] at h
        exact absurd h (by simp)
  · have hfrom : idsFrom comma f.msgIds
        = (comma :: (quoted (ascii "msg_ids") ++ [colon])) ++ (openBracket ::
            (numbersText f.msgIds ++ [closeBrace])) := by
      simp [idsFrom, hids]
    by_cases hu : ascii "msg_ids" = u
    · rw [if_pos hu, ← hu] at hseek
      have hbracket : seek [openBracket] (idsFrom comma f.msgIds)
          = some (openBracket :: (numbersText f.msgIds ++ [closeBrace])) := by
        rw [hfrom]
        exact seek_singleton (by decide)
      exact parseJsonUint64ArrayFast_of_seek hseek hbracket hids hlt (by decide)
    · rw [if_neg hu, seek_idsFrom (by decide) (by decide), if_pos ⟨hids, rfl⟩] at hseek
      exact parseJsonUint64ArrayFast_of_seek hseek (seek_singleton (w := [colon]) (by decide)) hids hlt
        (by decide)

include hplain

theorem extractJsonValue_user : extractJsonValue (renderJson 13 f) (ascii "user") = u := by
  have hnot : ∀ m ∈ ackNumbers f, ascii "user" ≠ m.1 := by
    intro m hm
    rcases (mem_ackNumbers hm).1 with h | h
    · rw [h]; decide
    · rw [h]; decide
  have hseek := seek_ack f.msgIds (by decide) (by decide) hnot hq
  rw [if_pos rfl, ← renderJson_user hr he huser hne] at hseek
  exact extractJsonValue_of_seek (by decide) hne hplain hq hseek

theorem ackArguments_many (hids : f.msgIds ≠ []) (hlt : ∀ n ∈ f.msgIds, n < 2 ^ 64) (accountID : Bytes) :
    ackArguments accountID (renderJson 13 f) = some (u, f.msgIds.take 256) := by
  have htake : f.msgIds.take 256 ≠ [] := by simpa using hids
  simp only [ackArguments, extractJsonValue_user hr he huser hne hplain hq,
    parse_msg_ids hr he huser hne hq hlt, if_neg hne, if_pos htake, if_neg htake]

theorem ackArguments_one (hids : f.msgIds = []) (hpos : 0 < f.msgId) (hlt : f.msgId < 2 ^ 64)
    (accountID : Bytes) : ackArguments accountID (renderJson 13 f) = some (u, [f.msgId]) := by
  have hlisted := parse_msg_ids hr he huser hne hq (by simp [hids])
  have hdec : optDecimal f.msgId = toDecimal f.msgId := if_neg (Nat.ne_of_gt hpos)
  have hmem : (ascii "msg_id", toDecimal f.msgId) ∈ ackNumbers f := by
    refine List.mem_append_right _ ?_
    rw [hdec, optMember, if_neg (toDecimal_ne_nil _)]
    exact List.mem_cons_self
  have hnil : ackNumbers f ≠ [] := List.ne_nil_of_mem hmem
  have hone : extractJsonValue (renderJson 13 f) (ascii "msg_id") = toDecimal f.msgId := by
    have hvalue : valueOf (ascii "msg_id") (ackNumbers f) = toDecimal f.msgId := by
      rw [ackNumbers, valueOf_optMember_of_ne (by decide), valueOf_last, hdec]
    have hkey : IsKey (ascii "msg_id") := by decide
    have htail : ¬ ascii "msg_id" ++ [quote] <+:
        comma :: (memberText (ascii "user") u ++ idsFrom comma f.msgIds) := not_key_at_comma hkey
    have hquiet : ∀ m ∈ ackNumbers f, quote ∉ m.1 ∧ quote ∉ m.2 ∧ ascii "msg_id" ≠ m.2 :=
      fun m hm => ackNumbers_quiet (by decide) hm
    rcases seek_membersOpen hkey htail (c := openBrace) (by decide) hquiet
      with ⟨m, -, -, -, r, hseek⟩ | ⟨hnot, -⟩
    · rw [hvalue] at hseek
      refine extractJsonValue_of_seek (r := r) (by decide) (toDecimal_ne_nil _) (plain_toDecimal _)
        (not_mem_toDecimal (by decide) _) ?_
      rw [renderJson_user hr he huser hne, objectWithIds_snoc, if_neg hnil]
      exact hseek
    · exact absurd rfl (hnot _ hmem)
  rw [hids, List.take_nil] at hlisted
  simp only [ackArguments, extractJsonValue_user hr he huser hne hplain hq, hlisted, if_neg hne, hone,
    stoullText_toDecimal hlt, if_pos hpos]
  simp

end

/-! ## 4. The tables -/

/-- A user's tables without these ids. -/
def PendingTables.without (t : PendingTables) (gone : List Bytes) : PendingTables :=
  { payload := fun i => if gone.contains i then none else t.payload i
    schedule := t.schedule.filter fun e => !gone.contains e.2
    attempts := fun i => if gone.contains i then none else t.attempts i }

theorem schedule_foldl_ackOne : ∀ (ids : List Bytes) (t : PendingTables),
    (ids.foldl Redis.ackOne t).schedule = t.schedule.filter fun e => !ids.contains e.2
  | [], t => by simp
  | id :: ids, t => by
    rw [List.foldl_cons, schedule_foldl_ackOne ids (Redis.ackOne t id)]
    show (t.schedule.filter fun e => e.2 ≠ id).filter _ = _
    rw [List.filter_filter]
    refine List.filter_congr fun e _ => ?_
    by_cases he : e.2 = id
    · simp [he]
    · simp [he]

theorem foldl_ackOne_eq (ids : List Bytes) (t : PendingTables) :
    ids.foldl Redis.ackOne t = t.without ids := by
  have hp : (ids.foldl Redis.ackOne t).payload = (t.without ids).payload := by
    funext i
    rw [(Redis.foldl_ackOne ids t i).1]
    simp only [PendingTables.without, List.contains_iff_mem]
  have ha : (ids.foldl Redis.ackOne t).attempts = (t.without ids).attempts := by
    funext i
    rw [(Redis.foldl_ackOne ids t i).2.1]
    simp only [PendingTables.without, List.contains_iff_mem]
  have hs : (ids.foldl Redis.ackOne t).schedule = (t.without ids).schedule :=
    schedule_foldl_ackOne ids t
  cases h : ids.foldl Redis.ackOne t with
  | mk payload schedule attempts =>
    rw [h] at hp ha hs
    simp only at hp ha hs
    rw [hp, ha, hs]

namespace Pending

/-- The ids an acknowledgement of these numbers names. -/
def namedIds (ids : List UInt64) : List Bytes := ids.map idStr

theorem ackedIds_of_nonzero {ids : List UInt64} (h : ∀ id ∈ ids, id ≠ 0) : ackedIds ids = namedIds ids := by
  have hfilter : ids.filter (· ≠ 0) = ids := List.filter_eq_self.mpr fun id hid => by simpa using h id hid
  rw [ackedIds, hfilter]
  rfl

/-- The task, on a worker that is free. -/
theorem step_ackPending {s : State} {tid : Nat} (hidle : s.threads tid = .idle) {u : Bytes} (hu : u ≠ [])
    {ids : List UInt64} (hids : ids ≠ []) (hnz : ∀ id ∈ ids, id ≠ 0) :
    ∃ s', step s (.ackPending tid u ids) = some (s', [.acked u ids]) ∧
      (∀ v, s'.redis.tables v = if v = u then (s.redis.tables u).without (namedIds ids)
        else s.redis.tables v) ∧ s'.redis.pendingUsers = s.redis.pendingUsers := by
  have hacked := ackedIds_of_nonzero hnz
  have hne : namedIds ids ≠ [] := by simpa [namedIds] using hids
  refine ⟨{ s with redis := s.redis.ackScript u (ackedIds ids) }, ?_, fun v => ?_, rfl⟩
  · simp only [step, hidle]
    rw [if_neg (by rw [hacked]; simp [hu, hne])]
  · show (s.redis.ackScript u (ackedIds ids)).tables v = _
    rw [Redis.ackScript, Redis.modify_apply, hacked]
    split
    · next hv => rw [hv, foldl_ackOne_eq]
    · rfl

/-- What becomes of a type-13 body, whoever sent it and whatever the tables hold: it is decoded,
    `processPacket` hands `u` and some ids to a task, and that task takes the ids `gone` out of
    the three tables of `u` and touches nothing else. -/
def AckRemoves (body u : Bytes) (gone : List UInt64) : Prop :=
  ∃ fuel json msgIds, decodeProtoToJson fuel 13 body = some json ∧
    (∀ accountID, ackArguments accountID json = some (u, msgIds)) ∧
    ∀ {s tid}, s.threads tid = .idle →
      ∃ s' es, step s (.ackPending tid u (msgIds.map UInt64.ofNat)) = some (s', es) ∧
        (∀ v, s'.redis.tables v = if v = u then (s.redis.tables u).without (namedIds gone)
          else s.redis.tables v) ∧ s'.redis.pendingUsers = s.redis.pendingUsers

theorem ackRemoves_of_arguments {u body : Bytes} (hne : u ≠ []) {fs : List Field} {f : ProtoFields}
    (hbody : BodyText fs body) (hlen : body.length < wordSize) (hfs : fs ≠ [])
    (hread : readFields 13 fs {} = some f) {gone : List UInt64} (hgone : gone ≠ [])
    (hnz : ∀ id ∈ gone, id ≠ 0)
    (hargs : ∀ accountID, ackArguments accountID (renderJson 13 f) = some (u, gone.map UInt64.toNat)) :
    AckRemoves body u gone := by
  obtain ⟨fuel, hdec⟩ := (decodeProtoToJson_bodyText 13 hbody hlen (renderJson 13 f)).mpr
    (by rw [if_neg hfs, hread]; rfl)
  refine ⟨fuel, _, _, hdec, hargs, fun {s tid} hidle => ?_⟩
  have hback : (gone.map UInt64.toNat).map UInt64.ofNat = gone := by
    rw [List.map_map]
    exact (List.map_congr_left fun id _ => UInt64.ofNat_toNat).trans (List.map_id gone)
  rw [hback]
  obtain ⟨s', hstep, htables, husers⟩ := step_ackPending hidle hne hgone hnz
  exact ⟨s', _, hstep, htables, husers⟩

/-- **A client's acknowledgement removes exactly what it names.** The name is not empty, holds no
    quote, comma or closing brace and does not start with a blank; the body is any text of fields
    with it in field 4. With ids in field 5, none of them 0, the first 256 of them go; without
    any, and with one id in field 3, that one goes. -/
theorem client_ack_removes_named {u body : Bytes} (hne : u ≠ []) (hq : quote ∉ u) (hplain : Plain u)
    {fs : List Field} (hbody : BodyText fs body) (hlen : body.length < wordSize)
    (hin : ∀ fd ∈ fs, fd.InAck) (hu : carried 4 fs = u) :
    (∀ ids : List UInt64, ids ≠ [] → (∀ id ∈ ids, id ≠ 0) → varints 5 fs = ids.map UInt64.toNat →
      AckRemoves body u (ids.take 256)) ∧
    ∀ id : UInt64, id ≠ 0 → varints 5 fs = [] → varints 3 fs = [id.toNat] →
      (∀ fd ∈ fs, fd.setsId = false) → AckRemoves body u [id] := by
  obtain ⟨f, hread, huser, hr, he, hids, hid⟩ := readFields_ack (f := {}) hin
  have huser' : f.user = u := huser.trans hu
  have hfs : fs ≠ [] := by
    rintro rfl
    exact hne hu.symm
  refine ⟨fun ids hids₀ hnz h₅ => ?_, fun id hnz h₅ h₃ hset => ?_⟩
  · have hmsgIds : f.msgIds = ids.map UInt64.toNat := hids.trans h₅
    refine ackRemoves_of_arguments hne hbody hlen hfs hread (by simpa using hids₀)
      (fun id hm => hnz id (List.mem_of_mem_take hm)) fun accountID => ?_
    rw [List.map_take, ← hmsgIds]
    refine ackArguments_many hr he huser' hne hplain hq ?_ ?_ accountID
    · rw [hmsgIds]
      simpa using hids₀
    · rw [hmsgIds]
      intro n hn
      obtain ⟨id, -, rfl⟩ := List.mem_map.mp hn
      exact id.toNat_lt
  · have hmsgIds : f.msgIds = [] := hids.trans h₅
    have hmsgId : f.msgId = id.toNat := (hid hset).trans (by rw [h₃]; rfl)
    have hpos : 0 < id.toNat := Nat.pos_of_ne_zero fun h0 => hnz (UInt64.toNat_inj.mp h0)
    refine ackRemoves_of_arguments hne hbody hlen hfs hread (by simp)
      (fun id' hm => by rw [List.mem_singleton.mp hm]; exact hnz) fun accountID => ?_
    rw [List.map_singleton, ← hmsgId]
    exact ackArguments_one hr he huser' hne hplain hq hmsgIds (by rw [hmsgId]; exact hpos)
      (by rw [hmsgId]; exact id.toNat_lt) accountID

/-- Two ids of a user whose name is that of the array, and one id of bob. -/
theorem client_ack_removes_three :
    AckRemoves (putString 4 (ascii "msg_ids") ++ (putUint64 5 7 ++ putUint64 5 (2 ^ 64 - 1)))
      (ascii "msg_ids") [7, 18446744073709551615] ∧
    AckRemoves (putUint64 3 7 ++ putString 4 (ascii "bob")) (ascii "bob") [7] := by
  have hbody₁ := (bodyText_putString (n := 4) (v := ascii "msg_ids") (by decide) (by decide)).append
    ((bodyText_putUint64 (n := 5) (v := 7) (by decide) (by decide)).append
      (bodyText_putUint64 (n := 5) (v := 2 ^ 64 - 1) (by decide) (by decide)))
  have hbody₂ := (bodyText_putUint64 (n := 3) (v := 7) (by decide) (by decide)).append
    (bodyText_putString (n := 4) (v := ascii "bob") (by decide) (by decide))
  have hin₁ : ∀ fd ∈ optString 4 (ascii "msg_ids") ++ (optUint64 5 7 ++ optUint64 5 (2 ^ 64 - 1)), fd.InAck := by
    intro fd hfd
    simp only [optString, optUint64, List.mem_append, List.mem_ite_nil_left, List.mem_singleton] at hfd
    rcases hfd with ⟨-, rfl⟩ | ⟨-, rfl⟩ | ⟨-, rfl⟩
    · exact ⟨by decide, by decide, by decide⟩
    · trivial
    · trivial
  have hin₂ : ∀ fd ∈ optUint64 3 7 ++ optString 4 (ascii "bob"), fd.InAck := by
    intro fd hfd
    simp only [optString, optUint64, List.mem_append, List.mem_ite_nil_left, List.mem_singleton] at hfd
    rcases hfd with ⟨-, rfl⟩ | ⟨-, rfl⟩
    · trivial
    · exact ⟨by decide, by decide, by decide⟩
  exact ⟨(client_ack_removes_named (by decide) (by decide) (by decide) hbody₁ (by decide) hin₁ rfl).1
      [7, 18446744073709551615] (by decide) (by simp) (by decide),
    (client_ack_removes_named (by decide) (by decide) (by decide) hbody₂ (by decide) hin₂ rfl).2 7
      (by decide) (by decide) (by decide) (by decide)⟩

end Pending
end EpollChat
