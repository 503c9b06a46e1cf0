import EpollChat.Wire.Message

/-!
# Varints round-trip in context

`readVarint` reads every varint, at any offset and with anything behind: one byte is one round,
and the value read so far is the low bits of the whole (`readVarint_isUint64`). What
`writeVarint` writes is one, so the two round-trip.
-/

namespace EpollChat
namespace Pb

/-! ## 1. One byte -/

theorem payload_eq (n : Nat) : n &&& 127 = n % 128 := Nat.and_two_pow_sub_one_eq_mod n 7

theorem high_bit_iff (b : UInt8) : b &&& 0x80 = 0 ↔ b.toNat < 128 := by
  have h : ∀ i : Fin 256, (UInt8.ofNat i.val) &&& 0x80 = 0 ↔ i.val < 128 := by
    set_option maxRecDepth 4000 in decide
  have hb := h ⟨b.toNat, b.toNat_lt⟩
  rwa [UInt8.ofNat_toNat] at hb

theorem continued_toNat (v : Nat) :
    (UInt8.ofNat ((v &&& 0x7F) ||| 0x80)).toNat = v % 128 + 128 := by
  rw [UInt8.toNat_ofNat']
  show (v &&& (2 ^ 7 - 1) ||| 2 ^ 7) % 2 ^ 8 = v % 128 + 128
  rw [Nat.and_two_pow_sub_one_eq_mod, Nat.or_comm]
  have h := Nat.two_pow_add_eq_or_of_lt (Nat.mod_lt v (Nat.two_pow_pos 7)) 1
  rw [Nat.mul_one] at h
  rw [← h]
  omega

/-! ## 2. One round -/

/-- OR-ing a payload in above the bits read so far is adding it. -/
theorem or_payload {acc shift x : Nat} (hacc : acc < 2 ^ shift) (hx : x * 2 ^ shift < wordSize) :
    acc ||| ((x <<< shift) % wordSize) = acc + x * 2 ^ shift := by
  rw [Nat.shiftLeft_eq, Nat.mod_eq_of_lt hx, Nat.or_comm, Nat.mul_comm,
    ← Nat.two_pow_add_eq_or_of_lt hacc, Nat.add_comm]

/-- One round of the reader at a byte that continues. -/
theorem readVarintLoop_continue {pre rest : Bytes} {b : UInt8} {n shift acc : Nat}
    (hs : shift ≤ 63) (hb : 128 ≤ b.toNat) :
    readVarintLoop (pre ++ b :: rest) (n + 1) pre.length shift acc
      = readVarintLoop ((pre ++ [b]) ++ rest) n (pre ++ [b]).length (shift + 7)
          (acc ||| (((b.toNat % 128) <<< shift) % wordSize)) := by
  have hbit : ¬ (b &&& 0x80 = 0) := fun h => absurd ((high_bit_iff b).mp h) (Nat.not_lt.mpr hb)
  rw [readVarintLoop, dif_pos ⟨by simp, hs⟩]
  simp [hbit, payload_eq]

/-- One round of the reader at a byte that ends. -/
theorem readVarintLoop_last {pre rest : Bytes} {b : UInt8} {n shift acc : Nat}
    (hs : shift ≤ 63) (hb : b.toNat < 128) :
    readVarintLoop (pre ++ b :: rest) (n + 1) pre.length shift acc
      = ⟨true, pre.length + 1, acc ||| ((b.toNat <<< shift) % wordSize)⟩ := by
  have hbit : b &&& 0x80 = 0 := (high_bit_iff b).mpr hb
  rw [readVarintLoop, dif_pos ⟨by simp, hs⟩]
  simp [hbit, payload_eq, Nat.mod_eq_of_lt hb]

/-! ## 3. The loop -/

theorem IsVarint.length_pos {e : Bytes} {v : Nat} (h : IsVarint e v) : 0 < e.length := by
  cases h with
  | last h => exact Nat.one_pos
  | more h he => exact Nat.succ_pos _

theorem readVarintLoop_isVarint {e : Bytes} {v : Nat} (h : IsVarint e v) :
    ∀ (n shift acc : Nat) (pre rest : Bytes), e.length ≤ n → shift + 7 * e.length ≤ 70 →
      acc < 2 ^ shift → v * 2 ^ shift < wordSize →
      readVarintLoop (pre ++ (e ++ rest)) n pre.length shift acc
        = ⟨true, pre.length + e.length, acc + v * 2 ^ shift⟩ := by
  induction h with
  | @last b hb =>
    intro n shift acc pre rest hn hs hacc hw
    rw [List.length_singleton] at hn hs
    obtain ⟨n, rfl⟩ : ∃ k, n = k + 1 := ⟨n - 1, by omega⟩
    rw [List.singleton_append, readVarintLoop_last (by omega) hb, or_payload hacc hw]
    rfl
  | @more b e v hb he ih =>
    intro n shift acc pre rest hn hs hacc hw
    rw [List.length_cons] at hn hs
    have hpos := he.length_pos
    have hlt := b.toNat_lt
    obtain ⟨n, rfl⟩ : ∃ k, n = k + 1 := ⟨n - 1, by omega⟩
    -- the low seven bits are read, the rest is the induction
    have hmod : b.toNat % 128 = b.toNat - 128 := by omega
    have hpow : (2 : Nat) ^ (shift + 7) = 2 ^ shift * 128 := by rw [Nat.pow_add]
    have hsplit : (b.toNat - 128 + 128 * v) * 2 ^ shift
        = (b.toNat - 128) * 2 ^ shift + v * 2 ^ (shift + 7) := by
      rw [hpow, Nat.add_mul, Nat.mul_comm 128 v, Nat.mul_assoc, Nat.mul_comm 128]
    have hle : (b.toNat - 128) * 2 ^ shift ≤ 127 * 2 ^ shift := Nat.mul_le_mul_right _ (by omega)
    rw [List.cons_append, readVarintLoop_continue (by omega) hb, hmod, or_payload hacc (by omega),
      ih _ _ _ _ rest (by omega) (by omega) (by omega) (by omega)]
    simp only [List.length_append, List.length_cons, List.length_nil, Read.mk.injEq, true_and]
    exact ⟨by omega, by omega⟩

/-- **Every varint is read**, whatever stands before and behind. -/
theorem readVarint_isUint64 {e : Bytes} {v : Nat} (h : IsUint64 e v) (pre rest : Bytes) :
    readVarint (pre ++ (e ++ rest)) pre.length = ⟨true, pre.length + e.length, v⟩ := by
  have hshort := h.short
  have hfits := h.fits
  have hread := readVarintLoop_isVarint h.varint 10 0 0 pre rest hshort
    (by omega) (by decide) (by omega)
  simpa [readVarint] using hread

/-! ## 4. What is written -/

theorem isVarint_writeVarintLoop : ∀ (n v : Nat), v < 2 ^ (7 * (n + 1)) →
    IsVarint (writeVarintLoop n v) v := by
  have hlast : ∀ v, v < 128 → IsVarint [UInt8.ofNat v] v := by
    intro v hv
    have hbyte : (UInt8.ofNat v).toNat = v := by
      rw [UInt8.toNat_ofNat']
      omega
    have h := IsVarint.last (b := UInt8.ofNat v) (by omega)
    rwa [hbyte] at h
  intro n
  induction n with
  | zero => exact fun v hv => hlast v (by simpa using hv)
  | succ n ih =>
    intro v hv
    rw [writeVarintLoop]
    split
    · have hdiv : v >>> 7 = v / 128 := Nat.shiftRight_eq_div_pow v 7
      have hvlt : v / 128 < 2 ^ (7 * (n + 1)) := by
        rw [Nat.div_lt_iff_lt_mul (by decide)]
        calc v < 2 ^ (7 * (n + 1 + 1)) := hv
          _ = 2 ^ (7 * (n + 1)) * 128 := by
            rw [show 7 * (n + 1 + 1) = 7 * (n + 1) + 7 by omega, Nat.pow_add]
      have hbyte := continued_toNat v
      have h := IsVarint.more (b := UInt8.ofNat ((v &&& 0x7F) ||| 0x80)) (by omega) (ih _ hvlt)
      rw [hbyte, show v % 128 + 128 - 128 + 128 * (v / 128) = v by omega] at h
      rw [hdiv]
      exact h
    · exact hlast v (by omega)

theorem length_writeVarint_le (v : Nat) : (writeVarint v).length ≤ 10 := by
  have h : ∀ n v, (writeVarintLoop n v).length ≤ n + 1 := by
    intro n
    induction n with
    | zero => intro v; simp [writeVarintLoop]
    | succ n ih =>
      intro v
      rw [writeVarintLoop]
      split
      · rw [List.length_cons]
        have := ih (v >>> 7)
        omega
      · simp
  exact h 9 v

theorem isUint64_writeVarint {v : Nat} (hv : v < wordSize) : IsUint64 (writeVarint v) v := by
  refine ⟨isVarint_writeVarintLoop 9 v (Nat.lt_trans hv (by decide)), length_writeVarint_le v, hv⟩

/-! ## 5. The bounds of the loops -/

/-- A value that ends within `n` continuation bytes is written the same with more of them. -/
theorem writeVarintLoop_enough : ∀ {n v : Nat} (k : Nat), v < 2 ^ (7 * (n + 1)) →
    writeVarintLoop (n + k) v = writeVarintLoop n v := by
  intro n
  induction n with
  | zero =>
    intro v k hv
    cases k with
    | zero => rfl
    | succ k =>
      have hlast : writeVarintLoop 0 v = [UInt8.ofNat v] := rfl
      rw [hlast, Nat.zero_add, writeVarintLoop, if_neg (by omega)]
  | succ n ih =>
    intro v k hv
    have hshift : v >>> 7 < 2 ^ (7 * (n + 1)) := by
      rw [Nat.shiftRight_eq_div_pow, Nat.div_lt_iff_lt_mul (by decide), ← Nat.pow_add]
      exact hv
    rw [Nat.add_right_comm, writeVarintLoop, writeVarintLoop, ih k hshift]

/-- The reader is stopped by its shift, not by the number of rounds it is given. -/
theorem readVarintLoop_enough (inp : Bytes) : ∀ {n off shift v : Nat} (k : Nat), 63 < shift + 7 * n →
    readVarintLoop inp (n + k) off shift v = readVarintLoop inp n off shift v := by
  intro n
  induction n with
  | zero =>
    intro off shift v k hs
    cases k with
    | zero => rfl
    | succ k =>
      have hstop : readVarintLoop inp 0 off shift v = ⟨false, off, v⟩ := rfl
      have hshift : ¬ (off < inp.length ∧ shift ≤ 63) := by omega
      rw [hstop, Nat.zero_add, readVarintLoop, dif_neg hshift]
  | succ n ih =>
    intro off shift v k hs
    rw [Nat.add_right_comm, readVarintLoop, readVarintLoop]
    split
    · dsimp only
      split
      · rfl
      · exact ih k (by omega)
    · rfl

theorem readVarintLoop_off (inp : Bytes) : ∀ (n off shift v : Nat), off ≤ inp.length →
    off ≤ (readVarintLoop inp n off shift v).off ∧
      (readVarintLoop inp n off shift v).off ≤ inp.length ∧
      (readVarintLoop inp n off shift v).off ≤ off + n := by
  intro n
  induction n with
  | zero => exact fun off shift v h => ⟨le_refl _, h, le_refl _⟩
  | succ n ih =>
    intro off shift v hoff
    rw [readVarintLoop]
    split
    · next hin =>
      have hin' : off + 1 ≤ inp.length := hin.1
      dsimp only
      split
      · exact ⟨Nat.le_succ _, hin', by dsimp only; omega⟩
      · exact ⟨le_trans (Nat.le_succ _) (ih _ _ _ hin').1, (ih _ _ _ hin').2.1,
          le_trans (ih _ _ _ hin').2.2 (by omega)⟩
    · exact ⟨le_refl _, hoff, Nat.le_add_right _ _⟩

/-- **Varints round-trip in context**, whatever stands before and behind; and on any input the
    reader stays within it and takes at most ten bytes. Neither loop is cut short by the
    rounds it is given here. -/
theorem varints_round_trip (v : UInt64) (pre rest : Bytes) :
    readVarint (pre ++ (writeVarint v.toNat ++ rest)) pre.length
      = ⟨true, pre.length + (writeVarint v.toNat).length, v.toNat⟩ ∧
    (∀ k, writeVarintLoop (9 + k) v.toNat = writeVarint v.toNat) ∧
    ∀ (inp : Bytes) (off : Nat), off ≤ inp.length →
      off ≤ (readVarint inp off).off ∧ (readVarint inp off).off ≤ inp.length ∧
      (readVarint inp off).off ≤ off + 10 ∧
      ∀ k, readVarintLoop inp (10 + k) off 0 0 = readVarint inp off := by
  refine ⟨readVarint_isUint64 (isUint64_writeVarint v.toNat_lt) pre rest, fun k => ?_, ?_⟩
  · exact writeVarintLoop_enough k (Nat.lt_trans v.toNat_lt (by decide))
  · intro inp off hoff
    obtain ⟨h₁, h₂, h₃⟩ := readVarintLoop_off inp 10 off 0 0 hoff
    exact ⟨h₁, h₂, h₃, fun k => readVarintLoop_enough inp k (by decide)⟩

/-- 300 takes two bytes, and the reader of a cut varint stops at the end. -/
theorem varints_round_trip_300 :
    readVarint ([7] ++ (writeVarint 300 ++ [9])) 1 = ⟨true, 3, 300⟩ ∧
      (readVarint [172] 0).off ≤ 1 :=
  ⟨(varints_round_trip 300 [7] [9]).1, ((varints_round_trip 300 [7] [9]).2.2 [172] 0 (by decide)).2.1⟩

end Pb
end EpollChat
