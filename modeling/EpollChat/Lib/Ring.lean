import EpollChat.Lib.Slice
import Mathlib.Algebra.Group.Nat.Defs
import Mathlib.Data.Nat.Basic
import Mathlib.Tactic.Common

/-!
# Rings: stores read and written modulo their size

A window of a ring starts at a position below the size `cap` and wraps at most once.
`ring` says what such a window holds, one cell at a time; `ringPut` is the copy in two
pieces that C code makes of it. `ring_ringPut` is the point: a copy that starts where a
window ends extends the window, wherever the end of the store happens to fall.

The third section is the usual way to the next power of two: or-ing a number with its own
shifts fills every bit below its highest one. The last is the usual way to a multiple of one.
-/

namespace Lib

universe u

variable {α : Type u}

/-! ## 1. Windows -/

/-- The `n` cells from position `pos` on, modulo `cap`. -/
def ring (f : Nat → α) (cap pos n : Nat) : List α :=
  (List.range n).map fun i => f ((pos + i) % cap)

@[simp] theorem length_ring (f : Nat → α) (cap pos n : Nat) : (ring f cap pos n).length = n := by
  simp [ring]

@[simp] theorem getElem_ring (f : Nat → α) (cap pos n i : Nat) (h : i < (ring f cap pos n).length) :
    (ring f cap pos n)[i] = f ((pos + i) % cap) := by
  simp [ring]

/-- A sum that wraps at most once. -/
theorem mod_wrap {x cap : Nat} (h : x < cap + cap) :
    x % cap = if x < cap then x else x - cap := by
  split
  · next hlt => exact Nat.mod_eq_of_lt hlt
  · next hge =>
    rw [Nat.mod_eq_sub_mod (by omega), Nat.mod_eq_of_lt (by omega)]

/-- The part of a window behind its first `off` cells is a window. -/
theorem ring_window (f : Nat → α) {cap pos n off len : Nat} (h : off + len ≤ n) :
    ring f cap ((pos + off) % cap) len = ((ring f cap pos n).drop off).take len := by
  apply List.ext_getElem
  · simp; omega
  · intro i _ _
    simp [Nat.add_assoc]

theorem ring_drop (f : Nat → α) (cap pos n off : Nat) :
    ring f cap ((pos + off) % cap) (n - off) = (ring f cap pos n).drop off := by
  apply List.ext_getElem
  · simp
  · intro i _ _
    simp [Nat.add_assoc]

/-- A window read in two pieces, up to the end of the store and from its start. -/
theorem ring_eq_slices (f : Nat → α) {cap pos n : Nat} (hpos : pos < cap) (hn : n ≤ cap) :
    ring f cap pos n
      = slice f pos (min n (cap - pos)) ++ slice f 0 (n - min n (cap - pos)) := by
  apply List.ext_getElem
  · rw [length_ring, List.length_append, length_slice, length_slice]
    omega
  · intro i h₁ h₂
    rw [length_ring] at h₁
    rw [getElem_ring, mod_wrap (by omega), List.getElem_append]
    simp only [length_slice, getElem_slice, Nat.zero_add]
    split
    · rw [dif_pos (by omega)]
    · rw [dif_neg (by omega)]
      congr 1
      omega

/-- A window that starts at the start of the store is a slice. -/
theorem ring_start (f : Nat → α) {cap n : Nat} (hn : n ≤ cap) : ring f cap 0 n = slice f 0 n := by
  unfold ring slice
  refine List.map_congr_left fun i hi => ?_
  have := List.mem_range.mp hi
  rw [Nat.zero_add, Nat.mod_eq_of_lt (by omega)]

/-! ## 2. Copies -/

/-- Copy `src` over the cells from `pos` on, in two pieces. -/
def ringPut (f : Nat → α) (cap pos : Nat) (src : List α) : Nat → α :=
  let first := min src.length (cap - pos)
  put (put f pos (src.take first)) 0 (src.drop first)

theorem ringPut_inside (f : Nat → α) {cap pos i : Nat} {src : List α} (hpos : pos < cap)
    (hlen : src.length ≤ cap) (hi : i < src.length) :
    ringPut f cap pos src ((pos + i) % cap) = src[i] := by
  rw [mod_wrap (by omega)]
  unfold ringPut
  by_cases h : pos + i < cap
  · rw [if_pos h, put_outside _ (by right; rw [List.length_drop]; omega),
      put_inside _ _ _ _ (by rw [List.length_take]; omega), List.getElem_take]
  · rw [if_neg h]
    have h₁ := put_inside (put f pos (src.take (min src.length (cap - pos)))) 0
      (src.drop (min src.length (cap - pos))) (pos + i - cap) (by rw [List.length_drop]; omega)
    rw [Nat.zero_add] at h₁
    rw [h₁, List.getElem_drop]
    congr 1
    omega

theorem ringPut_outside (f : Nat → α) {cap pos j : Nat} {src : List α} (hpos : pos < cap)
    (hj : j < cap) (h : ∀ i, i < src.length → j ≠ (pos + i) % cap) :
    ringPut f cap pos src j = f j := by
  unfold ringPut
  -- a cell of either piece would be a cell of the window
  have h₁ : j < pos ∨ pos + (src.take (min src.length (cap - pos))).length ≤ j := by
    by_contra hc
    rw [List.length_take] at hc
    refine h (j - pos) (by omega) ?_
    rw [Nat.mod_eq_of_lt (by omega)]
    omega
  have h₂ : (src.drop (min src.length (cap - pos))).length ≤ j := by
    by_contra hc
    rw [List.length_drop] at hc
    refine h (j + cap - pos) (by omega) ?_
    rw [mod_wrap (by omega), if_neg (by omega)]
    omega
  rw [put_outside _ (Or.inr (by omega)), put_outside _ h₁]

/-- **Appending around the corner.** -/
theorem ring_ringPut (f : Nat → α) {cap pos n : Nat} {src : List α} (hpos : pos < cap)
    (hroom : n + src.length ≤ cap) :
    ring (ringPut f cap ((pos + n) % cap) src) cap pos (n + src.length)
      = ring f cap pos n ++ src := by
  have hcap : 0 < cap := by omega
  have hw : (pos + n) % cap < cap := Nat.mod_lt _ hcap
  apply List.ext_getElem
  · simp
  · intro i h₁ h₂
    rw [length_ring] at h₁
    rw [getElem_ring, List.getElem_append]
    split
    · next hi =>
      rw [length_ring] at hi
      rw [getElem_ring]
      refine ringPut_outside f hw (Nat.mod_lt _ hcap) ?_
      intro k hk
      rw [Nat.mod_add_mod, mod_wrap (x := pos + i) (by omega), mod_wrap (x := pos + n + k) (by omega)]
      split <;> split <;> omega
    · next hi =>
      rw [length_ring] at hi
      have h := ringPut_inside f hw (show src.length ≤ cap by omega)
        (show i - n < src.length by omega)
      rw [Nat.mod_add_mod, show pos + n + (i - n) = pos + i by omega] at h
      rw [h]
      simp

/-! ## 3. The next power of two -/

/-- The `j` highest bits of a number whose highest bit is bit `k` are all set. -/
def TopSet (k j n : Nat) : Prop := n < 2 ^ (k + 1) ∧ ∀ i, i ≤ k → k < i + j → n.testBit i = true

theorem TopSet.start {n : Nat} (h : n ≠ 0) : TopSet n.log2 1 n := by
  refine ⟨Nat.lt_log2_self, ?_⟩
  intro i h₁ h₂
  obtain rfl : i = n.log2 := by omega
  exact Nat.testBit_log2 h

/-- Or-ing with a shift by `j` doubles their number. -/
theorem TopSet.smear {k j n : Nat} (h : TopSet k j n) : TopSet k (j + j) (n ||| n >>> j) := by
  refine ⟨Nat.or_lt_two_pow h.1 (Nat.lt_of_le_of_lt (Nat.shiftRight_le n j) h.1), ?_⟩
  intro i h₁ h₂
  rw [Nat.testBit_or, Nat.testBit_shiftRight]
  by_cases hi : k < i + j
  · rw [h.2 i h₁ hi]
    rfl
  · rw [h.2 (j + i) (by omega) (by omega), Bool.or_true]

theorem TopSet.eq {k j n : Nat} (h : TopSet k j n) (hj : k < j) : n = 2 ^ (k + 1) - 1 := by
  apply Nat.eq_of_testBit_eq
  intro i
  rw [Nat.testBit_two_pow_sub_one]
  by_cases hi : i ≤ k
  · rw [h.2 i hi (by omega)]
    exact (decide_eq_true (by omega)).symm
  · rw [Nat.testBit_lt_two_pow (Nat.lt_of_lt_of_le h.1 (Nat.pow_le_pow_right (by decide) (by omega)))]
    exact (decide_eq_false (by omega)).symm

/-! ## 4. Rounding with a mask -/

/-- The mask that clears the lowest `k` bits. -/
theorem and_two_pow_sub_two_pow {x n k : Nat} (hk : k ≤ n) (hx : x < 2 ^ n) :
    x &&& (2 ^ n - 2 ^ k) = x / 2 ^ k * 2 ^ k := by
  have hmask : 2 ^ n - 2 ^ k = (2 ^ (n - k) - 1) * 2 ^ k := by
    rw [Nat.sub_mul, ← Nat.pow_add, Nat.sub_add_cancel hk, Nat.one_mul]
  apply Nat.eq_of_testBit_eq
  intro i
  rw [hmask, Nat.testBit_and, Nat.testBit_mul_two_pow, Nat.testBit_mul_two_pow, Nat.testBit_two_pow_sub_one,
    Nat.testBit_div_two_pow]
  by_cases hi : k ≤ i
  · rw [Nat.sub_add_cancel hi]
    by_cases hn : i < n
    · simp [hi, show i - k < n - k by omega]
    · have hbit : x.testBit i = false :=
        Nat.testBit_lt_two_pow (Nat.lt_of_lt_of_le hx (Nat.pow_le_pow_right (by decide) (by omega)))
      simp [hbit]
  · simp [hi]

end Lib
