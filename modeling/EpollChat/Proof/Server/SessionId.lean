import EpollChat.Lib.Seek
import EpollChat.Server.History

/-!
# Whose conversation a session id is

The seed of a session id is the two names in order, with a `#` between them. In order, so that
it does not matter who asks. But nothing keeps a `#` out of a name, and a seed with more than
one of them is the seed of every pair it can be read as: `a#b` with `c`, and `a` with `b#c`, have
one history (`session_shared`).

A seed can be read in another way only at a `#` inside one of the names, and the two parts must
be in order there too. `session_identifies_iff` says that this is all.
-/

namespace EpollChat
namespace History

open Lib

/-! ## 1. The order of names -/

theorem memberLe_total : ∀ a b : Bytes, memberLe a b = true ∨ memberLe b a = true := by
  intro a
  induction a with
  | nil => exact fun b => Or.inl rfl
  | cons x a ih =>
    intro b
    cases b with
    | nil => exact Or.inr rfl
    | cons y b =>
      simp only [memberLe, Bool.or_eq_true, decide_eq_true_eq, Bool.and_eq_true, beq_iff_eq]
      by_cases hxy : x = y
      · subst hxy
        rcases ih b with h | h
        · exact Or.inl (Or.inr ⟨rfl, h⟩)
        · exact Or.inr (Or.inr ⟨rfl, h⟩)
      · rcases UInt8.lt_or_lt_of_ne hxy with h | h
        · exact Or.inl (Or.inl h)
        · exact Or.inr (Or.inl h)

theorem memberLe_antisymm : ∀ a b : Bytes, memberLe a b = true → memberLe b a = true → a = b := by
  intro a
  induction a with
  | nil =>
    intro b _ h
    cases b with
    | nil => rfl
    | cons y b => exact absurd h (by simp [memberLe])
  | cons x a ih =>
    intro b h h'
    cases b with
    | nil => exact absurd h (by simp [memberLe])
    | cons y b =>
      simp only [memberLe, Bool.or_eq_true, decide_eq_true_eq, Bool.and_eq_true, beq_iff_eq] at h h'
      rcases h with h | ⟨rfl, h⟩
      · rcases h' with h' | ⟨rfl, -⟩
        · exact absurd h' (UInt8.lt_asymm h)
        · exact absurd h (UInt8.lt_irrefl _)
      · rcases h' with h' | ⟨-, h'⟩
        · exact absurd h' (UInt8.lt_irrefl _)
        · rw [ih b h h']

/-! ## 2. Seeds -/

/-- The name that comes first in the seed, and the other one. -/
def lower (a b : Bytes) : Bytes := if memberLe a b then a else b

def upper (a b : Bytes) : Bytes := if memberLe a b then b else a

def seed (a b : Bytes) : Bytes := lower a b ++ 35 :: upper a b

theorem lower_upper (a b : Bytes) : (lower a b = a ∧ upper a b = b) ∨ (lower a b = b ∧ upper a b = a) := by
  unfold lower upper
  split
  · exact Or.inl ⟨rfl, rfl⟩
  · exact Or.inr ⟨rfl, rfl⟩

theorem memberLe_lower_upper (a b : Bytes) : memberLe (lower a b) (upper a b) = true := by
  unfold lower upper
  split
  · next h => exact h
  · next h => exact (memberLe_total a b).resolve_left h

/-- It does not matter who asks. -/
theorem lower_upper_comm (a b : Bytes) : lower b a = lower a b ∧ upper b a = upper a b := by
  have hab := memberLe_lower_upper a b
  have hba := memberLe_lower_upper b a
  rcases lower_upper a b with ⟨h₁, h₂⟩ | ⟨h₁, h₂⟩ <;> rcases lower_upper b a with ⟨h₃, h₄⟩ | ⟨h₃, h₄⟩ <;>
    rw [h₁, h₂] at hab <;> rw [h₃, h₄] at hba <;> rw [h₁, h₂, h₃, h₄]
  · obtain rfl := memberLe_antisymm a b hab hba
    exact ⟨rfl, rfl⟩
  · exact ⟨rfl, rfl⟩
  · exact ⟨rfl, rfl⟩
  · obtain rfl := memberLe_antisymm a b hba hab
    exact ⟨rfl, rfl⟩

theorem lower_ne_nil {a b : Bytes} (ha : a ≠ []) (hb : b ≠ []) : lower a b ≠ [] := by
  rcases lower_upper a b with ⟨h, -⟩ | ⟨h, -⟩
  · rw [h]; exact ha
  · rw [h]; exact hb

theorem upper_ne_nil {a b : Bytes} (ha : a ≠ []) (hb : b ≠ []) : upper a b ≠ [] := by
  rcases lower_upper a b with ⟨-, h⟩ | ⟨-, h⟩
  · rw [h]; exact hb
  · rw [h]; exact ha

theorem buildSessionId_eq (md5 : Bytes → Bytes) {a b : Bytes} (ha : a ≠ []) (hb : b ≠ []) :
    buildSessionId md5 a b = hexText (md5 (seed a b)) := by
  rw [buildSessionId, if_neg (by simp [ha, hb]), seed, lower, upper]
  split
  · rfl
  · rfl

/-- The same two names, in whichever order they were given. -/
theorem same_pair_iff {a b c d : Bytes} : (lower a b = lower c d ∧ upper a b = upper c d) ↔
    (a = c ∧ b = d) ∨ (a = d ∧ b = c) := by
  constructor
  · rintro ⟨hl, hu⟩
    rcases lower_upper a b with ⟨h₁, h₂⟩ | ⟨h₁, h₂⟩ <;> rcases lower_upper c d with ⟨h₃, h₄⟩ | ⟨h₃, h₄⟩ <;>
      rw [h₁, h₃] at hl <;> rw [h₂, h₄] at hu
    · exact Or.inl ⟨hl, hu⟩
    · exact Or.inr ⟨hl, hu⟩
    · exact Or.inr ⟨hu, hl⟩
    · exact Or.inl ⟨hu, hl⟩
  · rintro (⟨rfl, rfl⟩ | ⟨rfl, rfl⟩)
    · exact ⟨rfl, rfl⟩
    · exact lower_upper_comm b a

/-- Names that are in order are the two parts of their seed. -/
theorem lower_upper_of_le {a b : Bytes} (h : memberLe a b = true) : lower a b = a ∧ upper a b = b :=
  ⟨if_pos h, if_pos h⟩

/-! ## 3. Digests in hexadecimal -/

theorem hexDigit_inj {m n : Nat} (hm : m < 16) (hn : n < 16)
    (h : hexDigit (UInt8.ofNat m) = hexDigit (UInt8.ofNat n)) : m = n := by
  have hall : ∀ i j : Fin 16, hexDigit (UInt8.ofNat i.val) = hexDigit (UInt8.ofNat j.val) → i = j := by
    decide
  exact congrArg Fin.val (hall ⟨m, hm⟩ ⟨n, hn⟩ h)

/-- The two digits of a byte are its quotient and its remainder by 16. -/
theorem byte_halves (b : UInt8) : (b >>> 4) &&& 0xF = UInt8.ofNat (b.toNat / 16) ∧
    b &&& 0xF = UInt8.ofNat (b.toNat % 16) := by
  have hall : ∀ i : Fin 256, (UInt8.ofNat i.val >>> 4) &&& 0xF = UInt8.ofNat (i.val / 16) ∧
      UInt8.ofNat i.val &&& 0xF = UInt8.ofNat (i.val % 16) := by
    set_option maxRecDepth 4000 in decide
  have hb := hall ⟨b.toNat, b.toNat_lt⟩
  simp only [UInt8.ofNat_toNat] at hb
  exact hb

theorem hexPair_inj (b c : UInt8) (h₁ : hexDigit ((b >>> 4) &&& 0xF) = hexDigit ((c >>> 4) &&& 0xF))
    (h₂ : hexDigit (b &&& 0xF) = hexDigit (c &&& 0xF)) : b = c := by
  rw [(byte_halves b).1, (byte_halves c).1] at h₁
  rw [(byte_halves b).2, (byte_halves c).2] at h₂
  have hb := b.toNat_lt
  have hc := c.toNat_lt
  have hquot := hexDigit_inj (by omega) (by omega) h₁
  have hrem := hexDigit_inj (by omega) (by omega) h₂
  apply UInt8.toNat_inj.mp
  omega
theorem hexText_inj : ∀ {d e : Bytes}, hexText d = hexText e → d = e := by
  intro d
  induction d with
  | nil =>
    intro e h
    cases e with
    | nil => rfl
    | cons c e => exact absurd h (by simp [hexText])
  | cons b d ih =>
    intro e h
    cases e with
    | nil => exact absurd h (by simp [hexText])
    | cons c e =>
      simp only [hexText, List.flatMap_cons, List.cons_append, List.nil_append, List.cons.injEq] at h
      obtain ⟨h₁, h₂, h₃⟩ := h
      rw [hexPair_inj b c h₁ h₂, ih h₃]

/-! ## 4. Whose the id is -/

/-- At no `#` inside one of the names do the two sides make another pair in order. -/
structure ReadOneWay (lo hi : Bytes) : Prop where
  low : ∀ x y, lo = x ++ 35 :: y → x ≠ [] → memberLe x (y ++ 35 :: hi) = false
  high : ∀ y z, hi = y ++ 35 :: z → z ≠ [] → memberLe (lo ++ 35 :: y) z = false

/-- Names without a `#` are never read in another way. -/
theorem readOneWay_of_not_mem {lo hi : Bytes} (hlo : 35 ∉ lo) (hhi : 35 ∉ hi) : ReadOneWay lo hi := by
  refine ⟨fun x y h => ?_, fun y z h => ?_⟩
  · exact absurd (by rw [h]; simp) hlo
  · exact absurd (by rw [h]; simp) hhi

/-- Read one way, the seed has only the two names for its parts. -/
theorem ReadOneWay.unique {lo hi c d : Bytes} (h : ReadOneWay lo hi) (hc : c ≠ []) (hd : d ≠ [])
    (hle : memberLe c d = true) (heq : lo ++ 35 :: hi = c ++ 35 :: d) : lo = c ∧ hi = d := by
  rcases delimited_eq heq with hsame | ⟨y, rfl, rfl⟩ | ⟨y, rfl, rfl⟩
  · exact hsame
  · rw [h.high y d rfl hd] at hle
    exact absurd hle (by simp)
  · rw [h.low c y rfl hc] at hle
    exact absurd hle (by simp)

/-- **A session id identifies one pair of names exactly if its seed is read one way**, as far as MD5
    tells seeds apart. -/
theorem session_identifies_iff (md5 : Bytes → Bytes) {a b : Bytes} (ha : a ≠ []) (hb : b ≠ []) :
    (∀ c d, c ≠ [] → d ≠ [] → (md5 (seed a b) = md5 (seed c d) → seed a b = seed c d) →
      (buildSessionId md5 a b = buildSessionId md5 c d ↔ (a = c ∧ b = d) ∨ (a = d ∧ b = c))) ↔
    ReadOneWay (lower a b) (upper a b) := by
  constructor
  · intro h
    -- Another reading in order is another pair with this id.
    have hother : ∀ {x z : Bytes}, x ≠ [] → z ≠ [] → memberLe x z = true → seed a b = x ++ 35 :: z →
        lower a b = x := by
      intro x z hx hz hle heq
      obtain ⟨h₁, h₂⟩ := lower_upper_of_le hle
      have hseed : seed a b = seed x z := by rw [heq, seed, h₁, h₂]
      have hid : buildSessionId md5 a b = buildSessionId md5 x z := by
        rw [buildSessionId_eq md5 ha hb, buildSessionId_eq md5 hx hz, hseed]
      have hpair := same_pair_iff.mpr ((h x z hx hz fun _ => hseed).mp hid)
      rw [hpair.1, h₁]
    refine ⟨fun x y hlow hx => ?_, fun y z hhigh hz => ?_⟩
    · cases hle : memberLe x (y ++ 35 :: upper a b) with
      | false => rfl
      | true =>
        have hsame := hother hx (by simp) hle (by rw [seed, hlow, List.append_assoc, List.cons_append])
        rw [hsame] at hlow
        exact absurd (congrArg List.length hlow) (by simp)
    · cases hle : memberLe (lower a b ++ 35 :: y) z with
      | false => rfl
      | true =>
        have hsame := hother (by simp) hz hle (by rw [seed, hhigh, List.append_assoc, List.cons_append])
        exact absurd (congrArg List.length hsame) (by simp)
  · intro h c d hc hd hmd5
    rw [buildSessionId_eq md5 ha hb, buildSessionId_eq md5 hc hd, ← same_pair_iff]
    constructor
    · intro heq
      exact h.unique (lower_ne_nil hc hd) (upper_ne_nil hc hd) (memberLe_lower_upper c d)
        (hmd5 (hexText_inj heq))
    · intro hpair
      rw [seed, seed, hpair.1, hpair.2]

/-- MD5 of `a#b` and `a#c`. -/
def digestABC (s : Bytes) : Bytes :=
  if s = ascii "a#b" then [100, 87, 199, 152, 139, 116, 165, 221, 32, 87, 199, 191, 9, 5, 56, 158]
  else if s = ascii "a#c" then [16, 67, 13, 158, 21, 23, 45, 4, 191, 60, 221, 24, 12, 177, 69, 198]
  else []

theorem session_identifies_iff_abc :
    buildSessionId digestABC (ascii "a") (ascii "b") = buildSessionId digestABC (ascii "b") (ascii "a") ∧
    buildSessionId digestABC (ascii "a") (ascii "b") ≠ buildSessionId digestABC (ascii "a") (ascii "c") := by
  have hone := (session_identifies_iff digestABC (a := ascii "a") (b := ascii "b") (by decide)
    (by decide)).mpr (readOneWay_of_not_mem (by decide) (by decide))
  refine ⟨(hone _ _ (by decide) (by decide) fun _ => by decide).mpr (Or.inr ⟨rfl, rfl⟩), fun h => ?_⟩
  exact absurd ((hone _ _ (by decide) (by decide) fun hmd5 => absurd hmd5 (by decide)).mp h) (by decide)

/-- `a#b` with `c` and `a` with `b#c` have the seed `a#b#c` in common, whose MD5 digest this is. -/
theorem session_shared : ¬ ∀ (md5 : Bytes → Bytes) (a b c d : Bytes), a ≠ [] → b ≠ [] → c ≠ [] → d ≠ [] →
    (md5 (seed a b) = md5 (seed c d) → seed a b = seed c d) →
    (buildSessionId md5 a b = buildSessionId md5 c d ↔ (a = c ∧ b = d) ∨ (a = d ∧ b = c)) := by
  intro h
  have hpair := h (fun _ => [252, 113, 217, 114, 1, 236, 196, 73, 227, 15, 49, 162, 222, 255, 97, 149])
    (ascii "a#b") (ascii "c") (ascii "a") (ascii "b#c") (by decide) (by decide) (by decide) (by decide)
    (fun _ => by decide)
  exact absurd (hpair.mp (by decide)) (by decide)

end History
end EpollChat
