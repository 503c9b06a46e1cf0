import EpollChat.Proof.Wire.Decode
import EpollChat.Proof.Wire.Render
import Mathlib.Data.List.TakeWhile

/-!
# Chat bodies

What the encoder writes for a chat packet is the body of five values, whatever values its
`get` has found (`encodeJsonToProto_chat`), and the field loop finds the five again, each in a
variable of its own (`decode_chatBody`). So two bodies are equal only if their values are.
-/

namespace EpollChat

open Lib Pb

/-! ## 1. Trimming -/

theorem trimValue_sublist (v : Bytes) : (trimValue v).Sublist v :=
  (List.takeWhile_sublist _).trans (List.dropWhile_sublist _)

theorem length_trimValue_le (v : Bytes) : (trimValue v).length ≤ v.length :=
  (trimValue_sublist v).length_le

/-- A value the slow extractor gives back whole: no comma, no closing brace, and no
    blank at its head. -/
def Plain (v : Bytes) : Prop := v.head? ≠ some space ∧ comma ∉ v ∧ closeBrace ∉ v

instance (v : Bytes) : Decidable (Plain v) := inferInstanceAs (Decidable (_ ∧ _))

theorem trimValue_of_plain {v : Bytes} (h : Plain v) : trimValue v = v := by
  obtain ⟨hs, hc, hb⟩ := h
  have h₁ : v.dropWhile (· == space) = v := by
    cases v with
    | nil => rfl
    | cons b bs => exact List.dropWhile_cons_of_neg (by simpa using hs)
  rw [trimValue, h₁, List.takeWhile_eq_self_iff]
  intro b hbm
  have hbc : b ≠ comma := fun h => hc (h ▸ hbm)
  have hbb : b ≠ closeBrace := fun h => hb (h ▸ hbm)
  simp [hbc, hbb]

theorem plain_trimValue (v : Bytes) : Plain (trimValue v) := by
  have hall : ∀ b ∈ trimValue v, !(b == comma || b == closeBrace) :=
    fun b hb => List.mem_takeWhile_imp (p := fun b => !(b == comma || b == closeBrace)) hb
  refine ⟨?_, fun h => absurd (hall _ h) (by decide), fun h => absurd (hall _ h) (by decide)⟩
  intro h
  unfold trimValue at h
  cases hd : v.dropWhile (· == space) with
  | nil => rw [hd] at h; simp at h
  | cons b bs =>
    have hb : (b == space) = false := by
      have := List.head?_dropWhile_not (· == space) v
      rw [hd] at this
      simpa using this
    rw [hd, List.takeWhile_cons] at h
    split at h
    · simp only [List.head?_cons, Option.some.injEq] at h
      rw [h] at hb
      exact absurd hb (by decide)
    · exact absurd h (by simp)

theorem plain_iff {v : Bytes} : trimValue v = v ↔ Plain v := by
  refine ⟨fun h => ?_, trimValue_of_plain⟩
  rw [← h]
  exact plain_trimValue v

theorem trimValue_trimValue (v : Bytes) : trimValue (trimValue v) = trimValue v :=
  trimValue_of_plain (plain_trimValue v)

theorem plain_toDecimal (n : Nat) : Plain (toDecimal n) :=
  ⟨fun h => not_mem_toDecimal (b := space) (by decide) n (List.mem_of_mem_head? h),
    not_mem_toDecimal (by decide) n, not_mem_toDecimal (by decide) n⟩

/-- A plain value is read off its quotes whole, whatever follows it. -/
theorem valueAfterColon_plain {v : Bytes} (hne : v ≠ []) (hplain : Plain v) (hq : quote ∉ v) (r : Bytes) :
    valueAfterColon (quoted v ++ r) = v := by
  obtain ⟨hspace, hcomma, hbrace⟩ := hplain
  have hdrop : ((quoted v ++ r).dropWhile fun b => b == space || b == quote) = v ++ (quote :: r) := by
    rw [quoted, List.cons_append, List.dropWhile_cons_of_pos (by decide), List.append_assoc]
    cases v with
    | nil => exact absurd rfl hne
    | cons b bs =>
      have hb : b ≠ space := fun hb => hspace (by rw [hb]; rfl)
      have hb' : b ≠ quote := fun hb => hq (by rw [hb]; exact List.mem_cons_self)
      exact List.dropWhile_cons_of_neg (by simp [hb, hb'])
  rw [valueAfterColon, hdrop, takeWhile_value hq, List.takeWhile_eq_self_iff]
  intro b hb
  have h₁ : b ≠ comma := fun h => hcomma (h ▸ hb)
  have h₂ : b ≠ closeBrace := fun h => hbrace (h ▸ hb)
  simp [h₁, h₂]

/-- What `extractJsonValue` makes of a member it found. -/
theorem extractJsonValue_of_seek {json key v r : Bytes} (hcolon : colon ∉ key) (hne : v ≠ [])
    (hplain : Plain v) (hq : quote ∉ v) (h : seek (quoted key) json = some (memberText key v ++ r)) :
    extractJsonValue json key = v := by
  rw [extractJsonValue, h]
  dsimp only
  rw [seek_colon_member hcolon]
  exact valueAfterColon_plain hne hplain hq r

/-! ## 2. What a client may send -/

/-- A field a client may send: not empty, no double quote, no backslash. -/
structure ChatText (v : Bytes) : Prop where
  ne_nil : v ≠ []
  no_quote : quote ∉ v
  no_backslash : backslash ∉ v

theorem ChatText.quotable {v : Bytes} (h : ChatText v) : Quotable v :=
  ⟨h.no_quote, getLast?_ne_backslash h.no_backslash⟩

/-! ## 3. What the encoder reads in the place of a field -/

/-- The `message` the encoder writes. -/
def encodedMessage (s t m : Bytes) : Bytes :=
  if ascii "message" = s then trimValue t
  else if ascii "message" = t then trimValue m else m

/-- The `target` the encoder writes. -/
def encodedTarget (s t : Bytes) : Bytes := if ascii "target" = s then trimValue t else t

/-! ## 4. Lengths -/

theorem length_encodedMessage_le (s t m : Bytes) :
    (encodedMessage s t m).length ≤ t.length + m.length := by
  have h₁ := length_trimValue_le t
  have h₂ := length_trimValue_le m
  unfold encodedMessage
  split
  · omega
  · split <;> omega

theorem length_encodedTarget_le (s t : Bytes) : (encodedTarget s t).length ≤ t.length := by
  have h₁ := length_trimValue_le t
  unfold encodedTarget
  split <;> omega

theorem length_putString_le (fieldNo : Nat) (v : Bytes) :
    (putString fieldNo v).length ≤ v.length + 20 := by
  unfold putString
  split
  · simp
  · have h₁ := length_writeVarint_le ((fieldNo <<< 3) ||| 2)
    have h₂ := length_writeVarint_le v.length
    simp only [writeString, writeKey, List.length_append]
    omega

theorem length_putUint64_le (fieldNo v : Nat) : (putUint64 fieldNo v).length ≤ 20 := by
  unfold putUint64
  split
  · simp
  · have h₁ := length_writeVarint_le ((fieldNo <<< 3) ||| 0)
    have h₂ := length_writeVarint_le v
    simp only [writeUint64, writeKey, List.length_append]
    omega

/-! ## 5. The body -/

theorem parseUint64Safe_lt (v : Bytes) : parseUint64Safe v < wordSize := by
  unfold parseUint64Safe wordSize
  split
  · rcases List.eq_nil_or_concat v with rfl | ⟨l, b, rfl⟩
    · decide
    · rw [List.concat_eq_append, List.foldl_concat]
      exact Nat.mod_lt _ (by decide)
  · decide

theorem encodeJsonToProto_chat {json : Bytes} (h : json ≠ []) : encodeJsonToProto 1 json
      = chatBody (getField json (ascii "sender")) (getField json (ascii "target"))
          (getField json (ascii "message")) (parseUint64Safe (getField json (ascii "msg_id")))
          (getField json (ascii "timestamp")) := by
  rw [encodeJsonToProto, if_neg h, if_pos rfl, chatBody]

/-- The field loop on a chat body. -/
theorem decode_chatBody {s t m ts : Bytes} {n : Nat} (hn : n < wordSize)
    (hlen : s.length + t.length + m.length + ts.length + 100 < wordSize) :
    DecodesTo 1 (chatBody s t m n ts) 0 {}
      (some { sender := s, peer := t, message := m, msgId := n, timestamp := ts }) := by
  have hbody : BodyText (optString 1 s ++ (optString 2 t ++ (optString 3 m ++ (optUint64 4 n ++
      (optString 5 ts ++ []))))) (chatBody s t m n ts) := by
    rw [List.append_nil]
    refine (bodyText_putString (by decide) (by omega)).append
      ((bodyText_putString (by decide) (by omega)).append
        ((bodyText_putString (by decide) (by omega)).append
          ((bodyText_putUint64 (by decide) hn).append (bodyText_putString (by decide) (by omega)))))
  have hshort : (chatBody s t m n ts).length < wordSize := by
    have h₁ := length_putString_le 1 s
    have h₂ := length_putString_le 2 t
    have h₃ := length_putString_le 3 m
    have h₄ := length_putUint64_le 4 n
    have h₅ := length_putString_le 5 ts
    simp only [chatBody, List.length_append]
    omega
  -- one round a field; a value that is not written is the variable's first value
  have hread := decodesTo_bodyText 1 hbody [] (f := {}) rfl hshort
  rw [readFields_optString { sender := s }, readFields_optString { sender := s, peer := t },
    readFields_optString { sender := s, peer := t, message := m },
    readFields_optUint64 { sender := s, peer := t, message := m, msgId := n },
    readFields_optString { sender := s, peer := t, message := m, msgId := n, timestamp := ts }]
      at hread
  · exact hread
  all_goals
    split
    · next h => rw [h]
    · simp [ProtoFields.setString, ProtoFields.setVarint]

theorem chatBody_inj {s t m ts s' t' m' ts' : Bytes} {n n' : Nat} (hn : n < wordSize) (hn' : n' < wordSize)
    (hlen : s.length + t.length + m.length + ts.length + 100 < wordSize)
    (hlen' : s'.length + t'.length + m'.length + ts'.length + 100 < wordSize)
    (h : chatBody s t m n ts = chatBody s' t' m' n' ts') :
    s = s' ∧ t = t' ∧ m = m' ∧ n = n' ∧ ts = ts' := by
  have hdec := decode_chatBody hn hlen
  rw [h] at hdec
  have heq := Option.some.inj (hdec.unique (decode_chatBody hn' hlen'))
  simp only [ProtoFields.mk.injEq] at heq
  obtain ⟨hs, -, hm, hts, -, -, -, -, -, ht, -, -, hid, -⟩ := heq
  exact ⟨hs, ht, hm, hid, hts⟩

end EpollChat
