import EpollChat.Proof.Wire.ChatBody

/-!
# The credentials of a login

A login body carries the name in field 1 and the password in field 2. The decoder files both
rightly, whatever else the body holds, and renders them between quotes; but `processPacket`
reads them with the slow extractor, which leaves out blanks at the head of a value and stops at
a comma or a closing brace, quotes or not. Two passwords that agree up to their first comma are
the same password to the check.
-/

namespace EpollChat

open Pb

/-! ## 1. What the decoder files -/

/-- The decoder refuses a body with a field of another wire type, and no other. -/
theorem readFields_isSome_iff (msgType : UInt16) : ∀ {fs : List Field} {f : ProtoFields},
    (readFields msgType fs f).isSome ↔ ∀ fd ∈ fs, fd.isOther = false := by
  intro fs
  induction fs with
  | nil => intro f; simp [readFields]
  | cons fd fs ih =>
    intro f
    obtain ⟨n, payload⟩ := fd
    cases payload with
    | varint v => simp [readFields, readField, Field.isOther, ih]
    | string v => simp [readFields, readField, Field.isOther, ih]
    | other wt raw => simp [readFields, readField, Field.isOther]

theorem setString_login (f : ProtoFields) (n : Nat) (v : Bytes) :
    (f.setString 4 n v).username = (if n = 1 then v else f.username) ∧
    (f.setString 4 n v).password = (if n = 2 then v else f.password) := by
  have h₄ : (4 : UInt16) ≠ 13 := by decide
  unfold ProtoFields.setString
  by_cases h₁ : n = 1
  · simp [h₁]
  · by_cases h₂ : n = 2
    · simp [h₂]
    · simp only [if_neg h₁, if_neg h₂, if_neg h₄]
      split
      · exact ⟨rfl, rfl⟩
      · split
        · split <;> exact ⟨rfl, rfl⟩
        · split <;> exact ⟨rfl, rfl⟩

theorem setVarint_login (f : ProtoFields) (n v : Nat) :
    (f.setVarint 4 n v).username = f.username ∧ (f.setVarint 4 n v).password = f.password := by
  have h₄ : ∀ k, ¬ (n = k ∧ (4 : UInt16) = 13) := fun k h => absurd h.2 (by decide)
  simp only [ProtoFields.setVarint, if_neg (h₄ _)]
  split <;> exact ⟨rfl, rfl⟩

/-- **The decoder files the strings a login body carries.** -/
theorem readFields_login : ∀ {fs : List Field} {f f' : ProtoFields}, readFields 4 fs f = some f' →
    f'.username = lastString 1 f.username fs ∧ f'.password = lastString 2 f.password fs := by
  intro fs
  induction fs with
  | nil =>
    intro f f' h
    rw [← Option.some.inj h]
    exact ⟨rfl, rfl⟩
  | cons fd fs ih =>
    intro f f' h
    obtain ⟨n, payload⟩ := fd
    cases payload with
    | varint v =>
      obtain ⟨hu, hp⟩ := ih (f := f.setVarint 4 n v) h
      rw [(setVarint_login f n v).1] at hu
      rw [(setVarint_login f n v).2] at hp
      exact ⟨hu, hp⟩
    | string v =>
      obtain ⟨hu, hp⟩ := ih (f := f.setString 4 n v) h
      rw [(setString_login f n v).1] at hu
      rw [(setString_login f n v).2] at hp
      exact ⟨hu, hp⟩
    | other wt raw => exact absurd h (by simp [readFields, readField])

/-! ## 2. What the check is called with -/

/-- The login task passes this name and this password to the check. -/
def CredentialsReach (body u p : Bytes) : Prop :=
  ∃ fuel json, decodeProtoToJson fuel 4 body = some json ∧ loginArguments json = (u, p)

theorem loginArguments_login {u p : Bytes} (hu : ChatText u) (hp : ChatText p) :
    loginArguments (objectText (optMember (ascii "username") u ++ optMember (ascii "password") p))
      = (trimValue u, trimValue p) := by
  have hclean : Clean (optMember (ascii "username") u ++ optMember (ascii "password") p) :=
    (clean_optMember (by decide) hu.quotable).append (clean_optMember (by decide) hp.quotable)
  rw [loginArguments, extractJsonValue_objectText (by decide) hclean,
    extractJsonValue_objectText (by decide) hclean, optMember, if_neg hu.ne_nil, optMember,
    if_neg hp.ne_nil, List.singleton_append]
  -- a name `password` is passed over: the next colon is the one of the password
  have hname : liteLookup (ascii "password") [(ascii "username", u), (ascii "password", p)] = trimValue p := by
    rw [liteLookup, if_neg (show ascii "password" ≠ ascii "username" by decide)]
    split
    · rfl
    · rw [liteLookup, if_pos rfl]
  rw [hname, liteLookup, if_pos rfl]

theorem credentialsReach_iff_read {a b body : Bytes} {fs : List Field} (hbody : BodyText fs body)
    (hmax : body.length ≤ stringMax) (hfs : fs ≠ []) : CredentialsReach body a b ↔
      loginArguments (jsonOf 4 (readFields 4 fs {})) = (a, b) := by
  have hdec := decodeProtoToJson_bodyText 4 hbody (Nat.lt_of_le_of_lt hmax (by decide))
  rw [if_neg hfs] at hdec
  constructor
  · rintro ⟨fuel, json, hj, harg⟩
    rw [← (hdec json).mp ⟨fuel, hj⟩]
    exact harg
  · intro harg
    obtain ⟨fuel, hj⟩ := (hdec _).mpr rfl
    exact ⟨fuel, _, hj, harg⟩

/-- What the check is called with. -/
theorem credentialsReach_iff_trimmed {u p a b body : Bytes} {fs : List Field} (hu : ChatText u)
    (hp : ChatText p) (hbody : BodyText fs body) (hmax : body.length ≤ stringMax)
    (h₁ : carried 1 fs = u) (h₂ : carried 2 fs = p) (hother : ∀ fd ∈ fs, fd.isOther = false) :
    CredentialsReach body a b ↔ trimValue u = a ∧ trimValue p = b := by
  have hfs : fs ≠ [] := by
    rintro rfl
    exact hu.ne_nil h₁.symm
  have hsome := (readFields_isSome_iff 4 (f := {})).mpr hother
  obtain ⟨f, hr⟩ := Option.isSome_iff_exists.mp hsome
  obtain ⟨huser, hpass⟩ := readFields_login hr
  have huser : f.username = u := huser.trans h₁
  have hpass : f.password = p := hpass.trans h₂
  rw [credentialsReach_iff_read hbody hmax hfs, hr, jsonOf, renderJson_login, huser, hpass,
    loginArguments_login hu hp, Prod.mk.injEq]

/-- **The credentials reach the check unchanged exactly if the slow extractor gives them back
    whole** and the body holds no field of a wire type that the server does not read. -/
theorem credentials_reach_check_iff {u p body : Bytes} {fs : List Field} (hu : ChatText u) (hp : ChatText p)
    (hbody : BodyText fs body) (hmax : body.length ≤ stringMax) (h₁ : carried 1 fs = u)
    (h₂ : carried 2 fs = p) : CredentialsReach body u p ↔
      Plain u ∧ Plain p ∧ ∀ fd ∈ fs, fd.isOther = false := by
  by_cases hother : ∀ fd ∈ fs, fd.isOther = false
  · rw [credentialsReach_iff_trimmed hu hp hbody hmax h₁ h₂ hother, plain_iff, plain_iff]
    exact ⟨fun h => ⟨h.1, h.2, hother⟩, fun h => ⟨h.1, h.2.1⟩⟩
  · refine ⟨fun h => ?_, fun h => absurd h.2.2 hother⟩
    have hfs : fs ≠ [] := by
      rintro rfl
      exact hu.ne_nil h₁.symm
    have hnone : readFields 4 fs {} = none := by
      rw [← Option.not_isSome_iff_eq_none, readFields_isSome_iff]
      exact hother
    rw [credentialsReach_iff_read hbody hmax hfs, hnone] at h
    exact absurd (Prod.mk.inj h).1.symm hu.ne_nil

/-- The fields of a login, and their body. -/
theorem bodyText_login {u p : Bytes} (hu : u.length < wordSize) (hp : p.length < wordSize) :
    BodyText (optString 1 u ++ optString 2 p) (putString 1 u ++ putString 2 p) :=
  (bodyText_putString (by decide) hu).append (bodyText_putString (by decide) hp)

theorem credentials_reach_check_alice :
    CredentialsReach (putString 1 (ascii "alice") ++ putString 2 (ascii "s3cret")) (ascii "alice")
      (ascii "s3cret") :=
  (credentials_reach_check_iff ⟨by decide, by decide, by decide⟩ ⟨by decide, by decide, by decide⟩
    (bodyText_login (by decide) (by decide)) (by decide) (by decide) (by decide)).mpr
      ⟨by decide, by decide, by decide⟩

/-- The password `a,b` is checked as `a`. -/
theorem password_cut : ChatText (ascii "alice") ∧ ChatText (ascii "a,b") ∧
    CredentialsReach (putString 1 (ascii "alice") ++ putString 2 (ascii "a,b")) (ascii "alice") (ascii "a") ∧
    ¬ CredentialsReach (putString 1 (ascii "alice") ++ putString 2 (ascii "a,b")) (ascii "alice")
        (ascii "a,b") := by
  have hu : ChatText (ascii "alice") := ⟨by decide, by decide, by decide⟩
  have hp : ChatText (ascii "a,b") := ⟨by decide, by decide, by decide⟩
  have hread : ∀ b : Bytes, CredentialsReach (putString 1 (ascii "alice") ++ putString 2 (ascii "a,b"))
      (ascii "alice") b ↔ trimValue (ascii "alice") = ascii "alice" ∧ trimValue (ascii "a,b") = b :=
    fun b => credentialsReach_iff_trimmed hu hp (bodyText_login (by decide) (by decide)) (by decide)
      (by decide) (by decide) (by decide)
  refine ⟨hu, hp, (hread _).mpr ⟨by decide, by decide⟩, fun h => ?_⟩
  exact absurd ((hread _).mp h).2 (by decide)

end EpollChat
