import EpollChat.Buffer.Recv
import Mathlib.Algebra.Order.Group.Nat

/-!
# A receive buffer is a byte queue

One lemma per operation, over `content`: appending goes to the back, consuming to the
front, peeking is a window. The masks are remainders because the capacity is a power of
two, and it is one because `nextPowerOfTwo` finds it (`nextPowerOfTwo_eq`).
-/

namespace EpollChat

open Lib

namespace PoolRecvBuffer

/-! ## 1. `nextPowerOfTwo` -/

theorem smear_eq {n : Nat} (h : n ≠ 0) (hlt : n.log2 < 64) : smear n = 2 ^ (n.log2 + 1) - 1 := by
  have h₁ := (TopSet.start h).smear
  have h₂ := h₁.smear.smear.smear.smear.smear
  exact h₂.eq hlt

/-- The least power of two at least as large as its argument, as long as there is one. -/
theorem nextPowerOfTwo_spec {x : Nat} (hx : x ≤ 2 ^ 63) :
    ∃ k, k ≤ 63 ∧ nextPowerOfTwo x = 2 ^ k ∧ x ≤ 2 ^ k ∧ ∀ j, x ≤ 2 ^ j → k ≤ j := by
  have hn : (if x ≤ 1 then 1 else x) ≤ 2 ^ 63 ∧ x ≤ (if x ≤ 1 then 1 else x) ∧
      0 < (if x ≤ 1 then 1 else x) ∧ ∀ j, x ≤ 2 ^ j → (if x ≤ 1 then 1 else x) ≤ 2 ^ j := by
    split
    · exact ⟨by decide, by omega, by decide, fun j _ => Nat.one_le_two_pow⟩
    · exact ⟨hx, by omega, by omega, fun j hj => hj⟩
  revert hn
  unfold nextPowerOfTwo
  generalize (if x ≤ 1 then 1 else x) = n
  rintro ⟨hn, hxn, hpos, hle⟩
  dsimp only
  split
  · next hand =>
    obtain ⟨k, hk⟩ := (Nat.and_sub_one_eq_zero_iff_isPowerOfTwo (by omega)).mp hand
    rw [hk] at hn
    refine ⟨k, (Nat.pow_le_pow_iff_right (by decide)).mp hn, hk, by omega, fun j hj => ?_⟩
    exact (Nat.pow_le_pow_iff_right (by decide)).mp (hk ▸ hle j hj)
  · next hand =>
    -- not a power of two, so the highest bit of `n - 1` is the one below the answer
    have hn1 : n - 1 ≠ 0 := by
      intro h
      obtain rfl : n = 1 := by omega
      exact hand (by decide)
    have hne : n ≠ 2 ^ 63 := fun h => hand (by rw [h]; decide)
    have hlog : (n - 1).log2 < 63 := (Nat.log2_lt hn1).mpr (by omega)
    refine ⟨(n - 1).log2 + 1, by omega, ?_, ?_, fun j hj => ?_⟩
    · rw [smear_eq hn1 (by omega)]
      have hle : 2 ^ ((n - 1).log2 + 1) ≤ 2 ^ 63 := Nat.pow_le_pow_right (by decide) (by omega)
      have := Nat.two_pow_pos ((n - 1).log2 + 1)
      rw [Nat.mod_eq_of_lt (by omega)]
      omega
    · have := Nat.lt_log2_self (n := n - 1)
      omega
    · have hlt : n - 1 < 2 ^ j := by
        have := hle j hj
        omega
      exact (Nat.log2_lt hn1).mpr hlt

/-- Beyond `2 ^ 63` it wraps to 0. -/
theorem nextPowerOfTwo_wraps {x : Nat} (hx : 2 ^ 63 < x) (hx' : x < 2 ^ 64) :
    nextPowerOfTwo x = 0 := by
  have hn1 : x - 1 ≠ 0 := by omega
  have hand : x &&& (x - 1) ≠ 0 := by
    intro h
    obtain ⟨k, hk⟩ := (Nat.and_sub_one_eq_zero_iff_isPowerOfTwo (by omega)).mp h
    rw [hk] at hx hx'
    have h₁ := (Nat.pow_lt_pow_iff_right (by decide)).mp hx
    have h₂ := (Nat.pow_lt_pow_iff_right (by decide)).mp hx'
    omega
  have hlog : (x - 1).log2 = 63 := (Nat.log2_eq_iff hn1).mpr ⟨by omega, by omega⟩
  have hx1 : (if x ≤ 1 then 1 else x) = x := if_neg (by omega)
  simp only [nextPowerOfTwo, hx1, if_neg hand, smear_eq hn1 (by omega), hlog]
  rfl

/-! ## 2. Well-formed buffers -/

structure Ok (b : PoolRecvBuffer) : Prop where
  pow : ∃ k, k ≤ 63 ∧ b.capacity = 2 ^ k
  read_lt : b.m_read < b.capacity
  size_le : b.m_size ≤ b.capacity

theorem Ok.capacity_le {b : PoolRecvBuffer} (h : b.Ok) : b.capacity ≤ 2 ^ 63 := by
  obtain ⟨k, hk, hc⟩ := h.pow
  rw [hc]
  exact Nat.pow_le_pow_right (by decide) hk

/-- The mask is a remainder. -/
theorem Ok.mask {b : PoolRecvBuffer} (h : b.Ok) (x : Nat) :
    x &&& (b.capacity - 1) = x % b.capacity := by
  obtain ⟨k, -, hc⟩ := h.pow
  rw [hc, Nat.and_two_pow_sub_one_eq_mod]

@[simp] theorem length_content (b : PoolRecvBuffer) : b.content.length = b.m_size := by
  simp [content]

theorem create_spec {cap : Nat} (h : cap ≤ 2 ^ 63) : (create cap).Ok ∧ (create cap).content = [] := by
  obtain ⟨k, hk, hn, -, -⟩ := nextPowerOfTwo_spec h
  refine ⟨⟨⟨k, hk, hn⟩, ?_, Nat.zero_le _⟩, rfl⟩
  show 0 < nextPowerOfTwo cap
  rw [hn]
  exact Nat.two_pow_pos k

/-! ## 3. `append` -/

theorem ensure_spec {b : PoolRecvBuffer} (hok : b.Ok) {len : Nat} (hlen : b.m_size + len ≤ 2 ^ 63) :
    ∃ b', b.ensureCapacityForAppend len = some b' ∧ b'.Ok ∧ b'.content = b.content ∧
      b'.m_size = b.m_size ∧ b.m_size + len ≤ b'.capacity := by
  unfold ensureCapacityForAppend
  split
  · next h => exact ⟨b, rfl, hok, rfl, rfl, by have := hok.size_le; omega⟩
  · next h =>
    have hreq : (b.m_size + len) % 2 ^ 64 = b.m_size + len := Nat.mod_eq_of_lt (by omega)
    rw [hreq]
    obtain ⟨k, hk, hn, hle, -⟩ := nextPowerOfTwo_spec hlen
    dsimp only
    rw [hn, if_neg (by omega)]
    refine ⟨_, rfl, ⟨⟨k, hk, rfl⟩, Nat.two_pow_pos k, ?_⟩, ?_, rfl, hle⟩
    · show b.m_size ≤ 2 ^ k
      omega
    · have hsz := hok.size_le
      show ring _ (2 ^ k) 0 b.m_size = ring b.bytes b.capacity b.m_read b.m_size
      rw [ring_start _ (by omega), ring_eq_slices _ hok.read_lt hsz]
      have hfirst : min b.m_size (b.capacity - b.m_read) ≤ b.m_size := Nat.min_le_left _ _
      generalize min b.m_size (b.capacity - b.m_read) = first at hfirst ⊢
      have happ := slice_put_append (put (fun _ => 0) 0 (slice b.bytes b.m_read first)) 0 first
        (slice b.bytes 0 (b.m_size - first))
      rw [length_slice, Nat.zero_add, slice_put_slice, show first + (b.m_size - first) = b.m_size by
        omega] at happ
      exact happ

/-- **`append` puts its bytes behind the content**, up to `2 ^ 63` bytes in all. -/
theorem append_spec {b : PoolRecvBuffer} (hok : b.Ok) {src : Bytes}
    (hlen : b.m_size + src.length ≤ 2 ^ 63) :
    ∃ b', b.append src = some b' ∧ b'.Ok ∧ b'.content = b.content ++ src := by
  unfold append
  split
  · next h => exact ⟨b, rfl, hok, by rw [List.length_eq_zero_iff.mp h, List.append_nil]⟩
  · obtain ⟨b', he, hok', hc, hsz, hroom⟩ := ensure_spec hok hlen
    rw [he]
    refine ⟨_, rfl, ⟨hok'.pow, hok'.read_lt, ?_⟩, ?_⟩
    · show b'.m_size + src.length ≤ b'.capacity
      omega
    · rw [← hc]
      show ring (ringPut _ _ ((b'.m_read + b'.m_size) &&& (b'.capacity - 1)) src) _ _ _ = _
      rw [hok'.mask]
      exact ring_ringPut b'.bytes hok'.read_lt (by omega)

/-- Beyond that it does not come back. -/
theorem append_overflow {b : PoolRecvBuffer} (hok : b.Ok) {src : Bytes} (hsrc : src.length ≤ 2 ^ 62)
    (hlen : 2 ^ 63 < b.m_size + src.length) : b.append src = none := by
  have hcap := hok.capacity_le
  have hsz := hok.size_le
  unfold append
  rw [if_neg (by omega), ensureCapacityForAppend, if_neg (by omega)]
  dsimp only
  rw [Nat.mod_eq_of_lt (by omega), nextPowerOfTwo_wraps hlen (by omega), if_pos (by omega)]

/-- **`nextPowerOfTwo` is exact**, and it is the capacity of a new buffer and of one that has to
    grow. -/
theorem nextPowerOfTwo_exact {x : Nat} (hx : x ≤ 2 ^ 63) :
    (∃ k, nextPowerOfTwo x = 2 ^ k ∧ max x 1 ≤ 2 ^ k ∧ ∀ j, max x 1 ≤ 2 ^ j → 2 ^ k ≤ 2 ^ j) ∧
    (create x).capacity = nextPowerOfTwo x ∧
    ∀ (b : PoolRecvBuffer) (appendLen : Nat), b.m_size + appendLen = x →
      b.capacity - b.m_size < appendLen →
      ∃ b', b.ensureCapacityForAppend appendLen = some b' ∧ b'.capacity = nextPowerOfTwo x := by
  obtain ⟨k, hk, hn, hle, hleast⟩ := nextPowerOfTwo_spec hx
  refine ⟨⟨k, hn, Nat.max_le.mpr ⟨hle, Nat.one_le_two_pow⟩, fun j hj => ?_⟩, rfl, ?_⟩
  · exact Nat.pow_le_pow_right (by decide) (hleast j (le_trans (Nat.le_max_left _ _) hj))
  · intro b appendLen hsum hroom
    have hreq : (b.m_size + appendLen) % 2 ^ 64 = x := by
      rw [hsum]
      exact Nat.mod_eq_of_lt (by omega)
    rw [ensureCapacityForAppend, if_neg (by omega)]
    dsimp only
    rw [hreq, if_neg (by omega)]
    exact ⟨_, rfl, rfl⟩

theorem nextPowerOfTwo_exact_thousand : 1000 ≤ 2 ^ 63 ∧ nextPowerOfTwo 1000 = 2 ^ 10 := by
  obtain ⟨⟨k, hk, hle, hleast⟩, -⟩ := nextPowerOfTwo_exact (x := 1000) (by decide)
  refine ⟨by decide, hk.trans (Nat.le_antisymm (hleast 10 (by decide)) ?_)⟩
  refine Nat.pow_le_pow_right (by decide) ?_
  by_contra hlt
  have h : 2 ^ k ≤ 2 ^ 9 := Nat.pow_le_pow_right (by decide) (by omega)
  exact absurd (le_trans hle h) (by decide)

/-! ## 4. `peek` and `consume` -/

theorem peek_spec {b : PoolRecvBuffer} (hok : b.Ok) {len offset : Nat}
    (h : offset + len ≤ b.m_size) :
    b.peek len offset = some ((b.content.drop offset).take len) := by
  have hcap := hok.capacity_le
  have hsz := hok.size_le
  unfold peek
  rw [Nat.mod_eq_of_lt (by omega), if_neg (by omega)]
  dsimp only
  have hlt : (b.m_read + offset) % b.capacity < b.capacity := Nat.mod_lt _ (by have := hok.read_lt; omega)
  rw [hok.mask, ← ring_eq_slices b.bytes hlt (by omega), ring_window b.bytes h]
  rfl

theorem peekString_spec {b : PoolRecvBuffer} (hok : b.Ok) {len offset : Nat}
    (h : offset + len ≤ b.m_size) :
    b.peekString offset len = (b.content.drop offset).take len := by
  unfold peekString
  split
  · next h0 => rw [h0, List.take_zero]
  · rw [peek_spec hok h]
    rfl

theorem consume_spec {b : PoolRecvBuffer} (hok : b.Ok) (len : Nat) :
    (b.consume len).Ok ∧ (b.consume len).content = b.content.drop len := by
  have hread := hok.read_lt
  unfold consume
  split
  · next h =>
    refine ⟨⟨hok.pow, by show 0 < b.capacity; omega, Nat.zero_le _⟩, ?_⟩
    rw [List.drop_eq_nil_of_le (by rw [length_content]; exact h)]
    rfl
  · next h =>
    rw [hok.mask]
    refine ⟨⟨hok.pow, Nat.mod_lt _ (by omega), ?_⟩, ring_drop ..⟩
    have := hok.size_le
    show b.m_size - len ≤ b.capacity
    omega

end PoolRecvBuffer

end EpollChat
