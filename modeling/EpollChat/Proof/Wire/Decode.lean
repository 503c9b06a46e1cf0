import EpollChat.Wire.Codec
import EpollChat.Proof.Wire.Varint

/-!
# The field loop on the fields of a body

`DecodesTo` is the field loop's big step: from offset `off`, some number of rounds ends
with this result. The loop is deterministic in the number of rounds granted
(`decodeLoop_mono`), so the result is unique. A field of a body is one round of it, so the loop
reads the fields of a body one by one (`decodesTo_bodyText`) and never goes round in circles on
one. What the encoder writes is a body of the fields that are not empty.
-/

namespace EpollChat

open Pb

/-! ## 1. The big step -/

/-- Some number of rounds from `off` on ends with `r`. -/
def DecodesTo (msgType : UInt16) (body : Bytes) (off : Nat) (f : ProtoFields)
    (r : Option ProtoFields) : Prop :=
  ∃ fuel, decodeLoop msgType body fuel off f = some r

theorem decodeLoop_mono {msgType : UInt16} {body : Bytes} {r : Option ProtoFields} :
    ∀ {n m off : Nat} {f : ProtoFields}, n ≤ m → decodeLoop msgType body n off f = some r →
      decodeLoop msgType body m off f = some r := by
  intro n
  induction n with
  | zero =>
    intro m off f _ h
    by_cases hoff : off < body.length
    · rw [decodeLoop, if_pos hoff] at h; exact absurd h (by simp)
    · rw [decodeLoop, if_neg hoff] at h
      cases m with
      | zero => rw [decodeLoop, if_neg hoff]; exact h
      | succ m => rw [decodeLoop, if_neg hoff]; exact h
  | succ n ih =>
    intro m off f hm h
    obtain ⟨m, rfl⟩ : ∃ k, m = k + 1 := ⟨m - 1, by omega⟩
    rw [decodeLoop] at h ⊢
    by_cases hoff : off < body.length
    · rw [if_pos hoff] at h ⊢
      cases hd : decodeField msgType body off f with
      | none => rw [hd] at h; exact h
      | some p => rw [hd] at h; exact ih (by omega) h
    · rw [if_neg hoff] at h ⊢; exact h

theorem DecodesTo.unique {msgType : UInt16} {body : Bytes} {off : Nat} {f : ProtoFields}
    {r r' : Option ProtoFields} (h : DecodesTo msgType body off f r)
    (h' : DecodesTo msgType body off f r') : r = r' := by
  obtain ⟨n, hn⟩ := h
  obtain ⟨m, hm⟩ := h'
  have h₁ := decodeLoop_mono (Nat.le_max_left n m) hn
  have h₂ := decodeLoop_mono (Nat.le_max_right n m) hm
  rw [h₁] at h₂
  exact Option.some.inj h₂

theorem DecodesTo.done {msgType : UInt16} {body : Bytes} {off : Nat} {f : ProtoFields}
    (h : body.length ≤ off) : DecodesTo msgType body off f (some f) :=
  ⟨0, by rw [decodeLoop, if_neg (by omega)]⟩

theorem DecodesTo.step {msgType : UInt16} {body : Bytes} {off off' : Nat} {f f' : ProtoFields}
    {r : Option ProtoFields} (hoff : off < body.length)
    (hd : decodeField msgType body off f = some (off', f'))
    (h : DecodesTo msgType body off' f' r) : DecodesTo msgType body off f r := by
  obtain ⟨n, hn⟩ := h
  exact ⟨n + 1, by rw [decodeLoop, if_pos hoff, hd]; exact hn⟩

theorem DecodesTo.fail {msgType : UInt16} {body : Bytes} {off : Nat} {f : ProtoFields}
    (hoff : off < body.length) (hd : decodeField msgType body off f = none) :
    DecodesTo msgType body off f none :=
  ⟨1, by rw [decodeLoop, if_pos hoff, hd]⟩

/-- What is returned when the loop ends so. -/
def jsonOf (msgType : UInt16) : Option ProtoFields → Bytes
  | none => []
  | some f => renderJson msgType f

/-- A non-empty body decodes to what its field loop ends with, and to nothing else, however
    many rounds are granted. -/
theorem decodeProtoToJson_iff {msgType : UInt16} {body json : Bytes} {r : Option ProtoFields}
    (hb : body ≠ []) (h : DecodesTo msgType body 0 {} r) :
    (∃ fuel, decodeProtoToJson fuel msgType body = some json) ↔ json = jsonOf msgType r := by
  constructor
  · rintro ⟨fuel, hj⟩
    rw [decodeProtoToJson, if_neg hb] at hj
    cases hl : decodeLoop msgType body fuel 0 {} with
    | none => rw [hl] at hj; exact absurd hj (by simp)
    | some r' =>
      rw [hl] at hj
      have hr : r = r' := h.unique ⟨fuel, hl⟩
      subst hr
      cases r with
      | none => exact (Option.some.inj hj).symm
      | some f => exact (Option.some.inj hj).symm
  · rintro rfl
    obtain ⟨n, hn⟩ := h
    refine ⟨n, ?_⟩
    rw [decodeProtoToJson, if_neg hb, hn]
    cases r with
    | none => rfl
    | some f => rfl

/-! ## 2. The key of a field -/

theorem key_wt {n wt : Nat} (hw : wt < 8) : (n * 8 + wt) &&& 0x7 = wt := by
  show (n * 8 + wt) &&& (2 ^ 3 - 1) = wt
  rw [Nat.and_two_pow_sub_one_eq_mod]
  omega

theorem key_field {n wt : Nat} (hn : n < 2 ^ 29) (hw : wt < 8) :
    ((n * 8 + wt) >>> 3) % 2 ^ 32 = n := by
  rw [Nat.shiftRight_eq_div_pow]
  omega

theorem isUint64_writeKey {n wt : Nat} (hn : n < 2 ^ 29) (hw : wt < 8) :
    IsUint64 (writeKey n wt) (n * 8 + wt) := by
  have hkey : (n <<< 3) ||| wt = n * 8 + wt := by
    rw [← Nat.shiftLeft_add_eq_or_of_lt (i := 3) hw, Nat.shiftLeft_eq]
  rw [writeKey, hkey]
  exact isUint64_writeVarint (by unfold wordSize; omega)

/-! ## 3. One round -/

/-- What a field does to the decoder's variables; `none` is `return ""`. -/
def readField (msgType : UInt16) (fd : Field) (f : ProtoFields) : Option ProtoFields :=
  match fd.payload with
  | .varint v => some (f.setVarint msgType fd.number v)
  | .string v => some (f.setString msgType fd.number v)
  | .other _ _ => none

theorem decodeField_varint {msgType : UInt16} {n v : Nat} {key e pre rest body : Bytes} (hn : n < 2 ^ 29)
    (hkey : IsUint64 key (n * 8 + 0)) (he : IsUint64 e v) (hb : body = pre ++ ((key ++ e) ++ rest))
    (f : ProtoFields) : decodeField msgType body pre.length f
      = some ((pre ++ (key ++ e)).length, f.setVarint msgType n v) := by
  have hb₁ : body = pre ++ (key ++ (e ++ rest)) := by rw [hb, List.append_assoc]
  have hb₂ : body = (pre ++ key) ++ (e ++ rest) := by rw [hb₁, List.append_assoc]
  have hk := readVarint_isUint64 hkey pre (e ++ rest)
  rw [← hb₁, ← List.length_append] at hk
  have hv := readVarint_isUint64 he (pre ++ key) rest
  rw [← hb₂] at hv
  simp only [decodeField, hk, hv, key_wt (show 0 < 8 by decide), key_field hn (show 0 < 8 by decide),
    if_true, Bool.true_eq_false, if_false, show ¬ (0 : Nat) = 2 by decide]
  simp [Nat.add_assoc]

theorem decodeField_string {msgType : UInt16} {n : Nat} {v key e pre rest body : Bytes} (hn : n < 2 ^ 29)
    (hkey : IsUint64 key (n * 8 + 2)) (he : IsUint64 e v.length)
    (hb : body = pre ++ ((key ++ (e ++ v)) ++ rest)) (hlen : body.length < wordSize) (f : ProtoFields) :
    decodeField msgType body pre.length f
      = some ((pre ++ (key ++ (e ++ v))).length, f.setString msgType n v) := by
  have hb₁ : body = pre ++ (key ++ (e ++ (v ++ rest))) := by rw [hb]; simp
  have hb₂ : body = (pre ++ key) ++ (e ++ (v ++ rest)) := by rw [hb₁]; simp
  have hb₃ : body = ((pre ++ key) ++ e) ++ (v ++ rest) := by rw [hb₂]; simp
  have hk := readVarint_isUint64 hkey pre (e ++ (v ++ rest))
  rw [← hb₁, ← List.length_append] at hk
  have hv := readVarint_isUint64 he (pre ++ key) (v ++ rest)
  rw [← hb₂, ← List.length_append] at hv
  -- the end of the field is in the body, so the sum that is compared does not wrap
  have hle : ((pre ++ key) ++ e).length + v.length ≤ body.length := by
    rw [hb₃]
    simp only [List.length_append]
    omega
  have hstop : (((pre ++ key) ++ e).length + v.length) % wordSize = (pre ++ (key ++ (e ++ v))).length := by
    rw [Nat.mod_eq_of_lt (by omega)]
    simp only [List.length_append]
    omega
  have htake : (body.drop ((pre ++ key) ++ e).length).take v.length = v := by
    rw [hb₃, List.drop_left, List.take_left]
  have hin : ¬ body.length < (pre ++ (key ++ (e ++ v))).length := by
    simp only [List.length_append] at hle ⊢
    omega
  simp only [decodeField, hk, hv, key_wt (show 2 < 8 by decide), key_field hn (show 2 < 8 by decide),
    hstop, htake, if_true, Bool.true_eq_false, if_false, if_neg hin]

theorem decodeField_other {msgType : UInt16} {n wt : Nat} {key raw pre rest body : Bytes}
    (hkey : IsUint64 key (n * 8 + wt)) (hwt : otherLength wt = some raw.length)
    (hb : body = pre ++ ((key ++ raw) ++ rest)) (f : ProtoFields) :
    decodeField msgType body pre.length f = none := by
  have hb₁ : body = pre ++ (key ++ (raw ++ rest)) := by rw [hb, List.append_assoc]
  have hk := readVarint_isUint64 hkey pre (raw ++ rest)
  rw [← hb₁] at hk
  have hcases : wt < 8 ∧ wt ≠ 0 ∧ wt ≠ 2 := by
    unfold otherLength at hwt
    split at hwt
    · omega
    · split at hwt
      · omega
      · split at hwt
        · omega
        · exact absurd hwt (by simp)
  obtain ⟨hw, h₀, h₂⟩ := hcases
  simp only [decodeField, hk, key_wt hw, skipField, if_neg h₀, if_neg h₂, if_true, Bool.true_eq_false,
    if_false]

theorem Pb.FieldText.length_pos {fd : Field} {text : Bytes} (h : FieldText fd text) : 0 < text.length := by
  cases h with
  | varint hn hkey he =>
    have := hkey.varint.length_pos
    rw [List.length_append]
    omega
  | string hn hkey he =>
    have := hkey.varint.length_pos
    rw [List.length_append]
    omega
  | other hn hkey hwt =>
    have := hkey.varint.length_pos
    rw [List.length_append]
    omega

/-- **One round of the loop reads one field.** -/
theorem decodeField_fieldText (msgType : UInt16) {fd : Field} {text pre rest body : Bytes}
    (h : FieldText fd text) (hb : body = pre ++ (text ++ rest)) (hlen : body.length < wordSize)
    (f : ProtoFields) : decodeField msgType body pre.length f
      = (readField msgType fd f).map fun f' => ((pre ++ text).length, f') := by
  cases h with
  | varint hn hkey he => exact decodeField_varint hn hkey he hb f
  | string hn hkey he => exact decodeField_string hn hkey he hb hlen f
  | other hn hkey hwt => exact decodeField_other hkey hwt hb f

/-! ## 4. A whole body -/

/-- The decoder's variables after these fields. -/
def readFields (msgType : UInt16) : List Field → ProtoFields → Option ProtoFields
  | [], f => some f
  | fd :: fs, f =>
      match readField msgType fd f with
      | none => none
      | some f' => readFields msgType fs f'

/-- **The field loop ends on every body, and has read its fields.** -/
theorem decodesTo_bodyText (msgType : UInt16) {fs : List Field} {text : Bytes} (h : BodyText fs text) :
    ∀ (pre : Bytes) {body : Bytes} {f : ProtoFields}, body = pre ++ text → body.length < wordSize →
      DecodesTo msgType body pre.length f (readFields msgType fs f) := by
  induction h with
  | nil =>
    intro pre body f hb _
    rw [List.append_nil] at hb
    rw [hb]
    exact DecodesTo.done (Nat.le_refl _)
  | @cons fd fs text rest hfd hfs ih =>
    intro pre body f hb hlen
    have hoff : pre.length < body.length := by
      have := hfd.length_pos
      rw [hb]
      simp only [List.length_append]
      omega
    have hd := decodeField_fieldText msgType hfd hb hlen f
    rw [readFields]
    cases hr : readField msgType fd f with
    | none =>
      rw [hr] at hd
      exact DecodesTo.fail hoff hd
    | some f' =>
      rw [hr] at hd
      exact DecodesTo.step hoff hd (ih _ (by rw [hb, List.append_assoc]) hlen)

theorem Pb.BodyText.append {fs fs' : List Field} {text text' : Bytes} (h : BodyText fs text)
    (h' : BodyText fs' text') : BodyText (fs ++ fs') (text ++ text') := by
  induction h with
  | nil => exact h'
  | cons hfd hfs ih =>
    rw [List.cons_append, List.append_assoc]
    exact .cons hfd ih

theorem Pb.BodyText.eq_nil_iff {fs : List Field} {text : Bytes} (h : BodyText fs text) :
    text = [] ↔ fs = [] := by
  cases h with
  | nil => exact ⟨fun _ => rfl, fun _ => rfl⟩
  | cons hfd hfs =>
    have := hfd.length_pos
    refine ⟨fun h => ?_, fun h => absurd h (by simp)⟩
    have hl := congrArg List.length h
    rw [List.length_append, List.length_nil] at hl
    omega

/-- What `decodeProtoToJson` makes of a body. -/
theorem decodeProtoToJson_bodyText (msgType : UInt16) {fs : List Field} {body : Bytes}
    (h : BodyText fs body) (hlen : body.length < wordSize) (json : Bytes) :
    (∃ fuel, decodeProtoToJson fuel msgType body = some json) ↔
      json = if fs = [] then [] else jsonOf msgType (readFields msgType fs {}) := by
  by_cases hfs : fs = []
  · rw [if_pos hfs, h.eq_nil_iff.mpr hfs]
    refine ⟨fun ⟨fuel, hj⟩ => (Option.some.inj hj).symm, fun hj => ⟨0, ?_⟩⟩
    rw [hj]
    rfl
  · have hb : body ≠ [] := fun h₀ => hfs (h.eq_nil_iff.mp h₀)
    rw [if_neg hfs]
    exact decodeProtoToJson_iff hb (decodesTo_bodyText msgType h [] rfl hlen)

/-! ## 5. The writer's fields -/

/-- A field that is written if its value is not empty. -/
def optString (n : Nat) (v : Bytes) : List Field := if v = [] then [] else [⟨n, .string v⟩]

/-- A field that is written if its value is not zero. -/
def optUint64 (n v : Nat) : List Field := if v = 0 then [] else [⟨n, .varint v⟩]

theorem putString_ne_nil {n : Nat} {v : Bytes} (hn : n < 2 ^ 29) (hv : v ≠ []) : putString n v ≠ [] := by
  have hkey : IsUint64 (writeKey n 2) (n * 8 + 2) := isUint64_writeKey hn (by decide)
  have hpos := hkey.varint.length_pos
  rw [putString, if_neg hv, writeString]
  intro h
  rw [(List.append_eq_nil_iff.mp h).1] at hpos
  exact absurd hpos (Nat.lt_irrefl 0)

theorem bodyText_putString {n : Nat} {v : Bytes} (hn : n < 2 ^ 29) (hv : v.length < wordSize) :
    BodyText (optString n v) (putString n v) := by
  unfold optString putString
  split
  · exact .nil
  · rw [← List.append_nil (writeString n v)]
    exact .cons (.string hn (isUint64_writeKey hn (by decide)) (isUint64_writeVarint hv)) .nil

theorem bodyText_putUint64 {n v : Nat} (hn : n < 2 ^ 29) (hv : v < wordSize) :
    BodyText (optUint64 n v) (putUint64 n v) := by
  unfold optUint64 putUint64
  split
  · exact .nil
  · rw [← List.append_nil (writeUint64 n v)]
    exact .cons (.varint hn (isUint64_writeKey hn (by decide)) (isUint64_writeVarint hv)) .nil

theorem readFields_optString (f' : ProtoFields) {msgType : UInt16} {n : Nat} {v : Bytes}
    {fs : List Field} {f : ProtoFields} (h : (if v = [] then f else f.setString msgType n v) = f') :
    readFields msgType (optString n v ++ fs) f = readFields msgType fs f' := by
  unfold optString
  split
  · next hv => rw [List.nil_append, ← h, if_pos hv]
  · next hv =>
    rw [if_neg hv] at h
    rw [List.singleton_append, readFields, ← h]
    rfl

theorem readFields_optUint64 (f' : ProtoFields) {msgType : UInt16} {n v : Nat} {fs : List Field}
    {f : ProtoFields}
    (h : (if v = 0 then f else f.setVarint msgType n v) = f') :
    readFields msgType (optUint64 n v ++ fs) f = readFields msgType fs f' := by
  unfold optUint64
  split
  · next hv => rw [List.nil_append, ← h, if_pos hv]
  · next hv =>
    rw [if_neg hv] at h
    rw [List.singleton_append, readFields, ← h]
    rfl

end EpollChat
