import EpollChat.Proof.Wire.Decode

/-!
# Whether the field loop moves forward

A round reads a key, and a varint or a length behind it; each of these takes at least a byte.
A length-delimited field then moves `off` by its length, and checks that it stays within the
body. But the sum is computed modulo `2 ^ 64`: a length close to `2 ^ 64` passes the check and
takes `off` *back*. If it goes back no further than into the field's own varints, the loop is
still moving forward; `StepsBack` is the other case.
-/

namespace EpollChat

open Pb

/-! ## 1. Varints take bytes -/

theorem readVarintLoop_ok (inp : Bytes) : ∀ {n off shift v : Nat}, v < wordSize →
    (readVarintLoop inp n off shift v).ok = true →
      off < (readVarintLoop inp n off shift v).off ∧
      (readVarintLoop inp n off shift v).off ≤ inp.length ∧
      (readVarintLoop inp n off shift v).v < wordSize := by
  intro n
  induction n with
  | zero =>
    intro off shift v _ h
    exact absurd h (by simp [readVarintLoop])
  | succ n ih =>
    intro off shift v hv h
    rw [readVarintLoop] at h ⊢
    split at h
    · next hin =>
      rw [dif_pos hin]
      have hv' : v ||| ((((inp.get ⟨off, hin.1⟩) &&& 0x7F).toNat <<< shift) % wordSize) < wordSize :=
        Nat.or_lt_two_pow hv (Nat.mod_lt _ (by decide))
      dsimp only at h ⊢
      split at h
      · next hlast =>
        rw [if_pos hlast]
        exact ⟨Nat.lt_succ_self _, hin.1, hv'⟩
      · next hmore =>
        rw [if_neg hmore]
        obtain ⟨h₁, h₂, h₃⟩ := ih hv' h
        exact ⟨by omega, h₂, h₃⟩
    · exact absurd h (by simp)

theorem readVarint_ok {inp : Bytes} {off : Nat} (h : (readVarint inp off).ok = true) :
    off < (readVarint inp off).off ∧ (readVarint inp off).off ≤ inp.length ∧
      (readVarint inp off).v < wordSize :=
  readVarintLoop_ok inp (by decide) h

/-! ## 2. One round -/

/-- At `off` stands a length-delimited field whose end, modulo `2 ^ 64`, is no further than its
    start. -/
def StepsBack (body : Bytes) (off : Nat) : Prop :=
  let key := readVarint body off
  let len := readVarint body key.off
  key.ok = true ∧ key.v &&& 0x7 = 2 ∧ len.ok = true ∧ wordSize ≤ len.off + len.v ∧
    len.off + len.v - wordSize ≤ off

instance (body : Bytes) (off : Nat) : Decidable (StepsBack body off) :=
  inferInstanceAs (Decidable (_ ∧ _))

/-- **A round moves forward and stays within the body, unless it steps back.** -/
theorem decodeField_forward {msgType : UInt16} {body : Bytes} (hlen : body.length < wordSize)
    {off off' : Nat} {f f' : ProtoFields} (h : decodeField msgType body off f = some (off', f'))
    (hback : ¬ StepsBack body off) : off < off' ∧ off' ≤ body.length := by
  unfold decodeField at h
  dsimp only at h
  split at h
  · exact absurd h (by simp)
  next hkey =>
  have hkey : (readVarint body off).ok = true := by simpa using hkey
  obtain ⟨hk₁, hk₂, -⟩ := readVarint_ok hkey
  split at h
  · next hwt =>
    split at h
    · exact absurd h (by simp)
    next hok =>
    have hok : (readVarint body (readVarint body off).off).ok = true := by simpa using hok
    obtain ⟨hl₁, hl₂, hl₃⟩ := readVarint_ok hok
    split at h
    · exact absurd h (by simp)
    next hin =>
    simp only [Option.some.injEq, Prod.mk.injEq] at h
    rw [← h.1]
    refine ⟨?_, Nat.not_lt.mp hin⟩
    -- without a wrap the end is behind the length; with one, it is not behind `off` only if
    -- the field steps back
    rcases Nat.lt_or_ge ((readVarint body (readVarint body off).off).off
        + (readVarint body (readVarint body off).off).v) wordSize with hno | hwrap
    · rw [Nat.mod_eq_of_lt hno]
      omega
    · have hmod := Nat.mod_eq_sub_mod hwrap
      rw [hmod, Nat.mod_eq_of_lt (by omega)]
      by_contra hle
      exact hback ⟨hkey, hwt, hok, hwrap, by omega⟩
  · split at h
    · split at h
      · exact absurd h (by simp)
      next hval =>
      have hval : (readVarint body (readVarint body off).off).ok = true := by simpa using hval
      obtain ⟨hv₁, hv₂, -⟩ := readVarint_ok hval
      simp only [Option.some.injEq, Prod.mk.injEq] at h
      rw [← h.1]
      exact ⟨by omega, hv₂⟩
    · -- other wire types are refused
      next h2 h0 =>
      rw [skipField, if_neg h0, if_neg h2] at h
      exact absurd h (by simp)

/-- A round that steps back goes on from there. -/
theorem decodeField_back (msgType : UInt16) {body : Bytes} (hlen : body.length < wordSize) {off : Nat}
    (hoff : off < body.length) (f : ProtoFields) (hback : StepsBack body off) :
    ∃ off' f', decodeField msgType body off f = some (off', f') ∧ off' ≤ off := by
  obtain ⟨hkey, hwt, hok, hwrap, hle⟩ := hback
  obtain ⟨-, hl₂, hl₃⟩ := readVarint_ok hok
  have hmod : ((readVarint body (readVarint body off).off).off
      + (readVarint body (readVarint body off).off).v) % wordSize
      = (readVarint body (readVarint body off).off).off
        + (readVarint body (readVarint body off).off).v - wordSize := by
    rw [Nat.mod_eq_sub_mod hwrap, Nat.mod_eq_of_lt (by omega)]
  have hround := decodeField.eq_1 msgType body off f
  dsimp only at hround
  rw [if_neg (by simp [hkey]), if_pos hwt, if_neg (by simp [hok]), hmod, if_neg (by omega)] at hround
  exact ⟨_, _, hround, hle⟩

/-! ## 3. The loop -/

/-- Where the field loop comes to, and with which variables. -/
inductive Visits (msgType : UInt16) (body : Bytes) : Nat → ProtoFields → Prop where
  | start : Visits msgType body 0 {}
  | next {off off' : Nat} {f f' : ProtoFields} (h : Visits msgType body off f)
      (hoff : off < body.length) (hd : decodeField msgType body off f = some (off', f')) :
      Visits msgType body off' f'

/-- Every round that does not return takes `off` forward and leaves it within the body; and the
    loop ends. -/
structure Advances (msgType : UInt16) (body : Bytes) : Prop where
  forward : ∀ {off off' f f'}, Visits msgType body off f → off < body.length →
    decodeField msgType body off f = some (off', f') → off < off' ∧ off' ≤ body.length
  ends : DecodeEnds msgType body

/-- The number of bytes that are left bounds the number of rounds. -/
theorem decodesTo_of_forward {msgType : UInt16} {body : Bytes}
    (hforward : ∀ {off off' f f'}, Visits msgType body off f → off < body.length →
      decodeField msgType body off f = some (off', f') → off < off' ∧ off' ≤ body.length) :
    ∀ {left off : Nat} {f : ProtoFields}, body.length - off ≤ left → Visits msgType body off f →
      ∃ r, DecodesTo msgType body off f r := by
  intro left
  induction left with
  | zero => exact fun hleft _ => ⟨_, DecodesTo.done (by omega)⟩
  | succ left ih =>
    intro off f hleft hv
    by_cases hoff : off < body.length
    · cases hd : decodeField msgType body off f with
      | none => exact ⟨_, DecodesTo.fail hoff hd⟩
      | some p =>
        obtain ⟨off', f'⟩ := p
        obtain ⟨hlt, -⟩ := hforward hv hoff hd
        obtain ⟨r, hr⟩ := ih (by omega) (.next hv hoff hd)
        exact ⟨r, DecodesTo.step hoff hd hr⟩
    · exact ⟨_, DecodesTo.done (by omega)⟩

theorem decodeEnds_of_decodesTo {msgType : UInt16} {body : Bytes} {r : Option ProtoFields}
    (h : DecodesTo msgType body 0 {} r) : DecodeEnds msgType body := by
  by_cases hb : body = []
  · exact ⟨0, by rw [decodeProtoToJson, if_pos hb]; rfl⟩
  · obtain ⟨fuel, hfuel⟩ := (decodeProtoToJson_iff hb h).mpr rfl
    exact ⟨fuel, by rw [hfuel]; rfl⟩

/-- **The field loop moves forward and ends exactly if no round steps back**: for every type and
    every body, whatever varints it holds. -/
theorem decode_advances_iff (msgType : UInt16) {body : Bytes} (hlen : body.length < wordSize) :
    Advances msgType body ↔
      ∀ {off f}, Visits msgType body off f → off < body.length → ¬ StepsBack body off := by
  constructor
  · intro h off f hv hoff hback
    obtain ⟨off', f', hd, hle⟩ := decodeField_back msgType hlen hoff f hback
    have := (h.forward hv hoff hd).1
    omega
  · intro h
    have hforward : ∀ {off off' f f'}, Visits msgType body off f → off < body.length →
        decodeField msgType body off f = some (off', f') → off < off' ∧ off' ≤ body.length :=
      fun hv hoff hd => decodeField_forward hlen hd (h hv hoff)
    obtain ⟨r, hr⟩ := decodesTo_of_forward hforward (Nat.le_refl _) .start
    exact ⟨hforward, decodeEnds_of_decodesTo hr⟩

/-- A login of one field: two bytes, and four of a name. -/
def shortLogin : Bytes := [0x0A, 0x04, 0x65, 0x76, 0x65, 0x21]

/-- The loop reads it in one round. -/
theorem decode_advances_login : Advances 4 shortLogin := by
  refine (decode_advances_iff 4 (by decide)).mpr fun {off f} hv hoff => ?_
  have hoffs : off = 0 ∨ off = 6 := by
    induction hv with
    | start => exact Or.inl rfl
    | @next off off' f f' hv hlt hd ih =>
      rcases ih hlt with rfl | rfl
      · have hone : decodeField 4 shortLogin 0 f
            = some (6, f.setString 4 1 [0x65, 0x76, 0x65, 0x21]) := rfl
        rw [hone, Option.some.injEq, Prod.mk.injEq] at hd
        exact Or.inr hd.1.symm
      · exact absurd hlt (by decide)
  rcases hoffs with rfl | rfl
  · decide
  · exact absurd hoff (by decide)

/-- Field 1, a string of length `2 ^ 64 - 11`: the sum with the offset 11 behind the
    length is 0 again. -/
def circularBody : Bytes := [0x0A, 0xF5, 0xFF, 0xFF, 0xFF, 0xFF, 0xFF, 0xFF, 0xFF, 0xFF, 0x01]

theorem decodeLoop_circular : ∀ (fuel : Nat) (f : ProtoFields),
    decodeLoop 1 circularBody fuel 0 f = none := by
  intro fuel
  induction fuel with
  | zero => intro f; rfl
  | succ fuel ih =>
    intro f
    have hround : decodeField 1 circularBody 0 f = some (0, f.setString 1 1 []) := rfl
    rw [decodeLoop, if_pos (by decide), hround]
    exact ih _

/-- Its end is its start: no round takes `off` forward, and the loop does not end. -/
theorem decode_circles : ¬ (∀ {off off' f f'}, Visits 1 circularBody off f →
      decodeField 1 circularBody off f = some (off', f') → off < off') ∧ ¬ DecodeEnds 1 circularBody := by
  refine ⟨fun h => ?_, ?_⟩
  · exact absurd (h .start (show decodeField 1 circularBody 0 {} = some (0, ({} : ProtoFields).setString 1 1 [])
      from rfl)) (by decide)
  · rintro ⟨fuel, hfuel⟩
    rw [decodeProtoToJson, if_neg (by decide), decodeLoop_circular] at hfuel
    exact absurd hfuel (by simp)

end EpollChat
