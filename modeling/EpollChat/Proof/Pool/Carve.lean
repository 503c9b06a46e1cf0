import EpollChat.Pool.MemoryPool

/-!
# Cutting a span into blocks

The arithmetic of the size classes, and what `carve` leaves behind: the first block with a
null link, and the others on a chain, in order, inside the span. Only the first words of the
blocks are written.
-/

namespace EpollChat
namespace Pool

open Lib

/-! ## 1. Size classes -/

theorem getIndex_zero (size : Nat) :
    getIndex (if size = 0 then ALIGNMENT else size) = getIndex size := by
  split
  · next h => rw [h]; rfl
  · rfl

theorem large_iff (size : Nat) :
    MAX_BYTES < (if size = 0 then ALIGNMENT else size) ↔ MAX_BYTES < size := by
  split
  · next h => rw [h]; decide
  · rfl

theorem getIndex_lt {size : Nat} (h : size ≤ MAX_BYTES) : getIndex size < FREE_LIST_SIZE := by
  simp only [getIndex, FREE_LIST_SIZE, MAX_BYTES, ALIGNMENT] at *
  omega

/-- A block is as long as asked for. -/
theorem le_blockSize (size : Nat) : size ≤ blockSize (getIndex size) := by
  simp only [getIndex, blockSize, ALIGNMENT]
  omega

theorem blockSize_pos (index : Nat) : 0 < blockSize index := by
  simp only [blockSize, ALIGNMENT]
  omega

theorem blockSize_mod (index : Nat) : blockSize index % 8 = 0 := by
  simp only [blockSize, ALIGNMENT]
  omega

theorem size_le_span (size : Nat) : size ≤ spanPages size * PAGE_SIZE := by
  unfold spanPages
  split
  · next h => exact h
  · simp only [PAGE_SIZE]
    omega

theorem blockNum_pos (index : Nat) : 0 < blockNum (blockSize index) :=
  Nat.div_pos (size_le_span _) (blockSize_pos index)

/-- The blocks of a span fit into it. -/
theorem block_le_span {size j : Nat} (hj : j < blockNum size) :
    j * size + size ≤ spanPages size * PAGE_SIZE := by
  have hle : (j + 1) * size ≤ blockNum size * size := Nat.mul_le_mul_right _ hj
  have hdiv : blockNum size * size ≤ spanPages size * PAGE_SIZE := Nat.div_mul_le_self _ _
  rw [Nat.succ_mul] at hle
  omega

/-! ## 2. Links -/

@[simp] theorem Memory.store_same (m : Memory) (a : Nat) (v : Nat) : (m.store a v).word a = v :=
  Function.update_self ..

theorem Memory.store_other {a b : Nat} (h : b ≠ a) (m : Memory) (v : Nat) :
    (m.store a v).word b = m.word b := Function.update_of_ne h ..

/-- The start of block `j`. -/
def blockAt (start size j : Nat) : Nat := start + j * size

theorem blockAt_inj {start size j k : Nat} (hs : 0 < size)
    (h : blockAt start size j = blockAt start size k) : j = k :=
  Nat.eq_of_mul_eq_mul_right hs (Nat.add_left_cancel h)

theorem linkBlocks_regions (m : Memory) (start size : Nat) :
    ∀ n, (linkBlocks m start size n).regions = m.regions
  | 0 => rfl
  | n + 1 => linkBlocks_regions m start size n

theorem linkBlocks_inside {m : Memory} {start size : Nat} (hs : 0 < size) : ∀ {n j : Nat}, j < n →
    (linkBlocks m start size n).word (blockAt start size j) = blockAt start size (j + 1) := by
  intro n
  induction n with
  | zero => exact fun hj => absurd hj (by simp)
  | succ n ih =>
    intro j hj
    show ((linkBlocks m start size n).store (blockAt start size n) (blockAt start size (n + 1))).word
      (blockAt start size j) = blockAt start size (j + 1)
    by_cases hjn : j = n
    · rw [hjn, Memory.store_same]
    · rw [Memory.store_other fun h => hjn (blockAt_inj hs h)]
      exact ih (by omega)

theorem linkBlocks_outside {m : Memory} {start size : Nat} {a : Nat} : ∀ {n : Nat},
    (∀ j, j < n → a ≠ blockAt start size j) → (linkBlocks m start size n).word a = m.word a := by
  intro n
  induction n with
  | zero => exact fun _ => rfl
  | succ n ih =>
    intro ha
    show ((linkBlocks m start size n).store (blockAt start size n) _).word a = m.word a
    rw [Memory.store_other (ha n (Nat.lt_succ_self n))]
    exact ih fun j hj => ha j (Nat.lt_succ_of_lt hj)

/-! ## 3. What `carve` leaves behind -/

/-- The blocks of a span behind the first. -/
def restBlocks (start size : Nat) : List Nat :=
  (List.range' 1 (blockNum size - 1)).map (blockAt start size)

theorem mem_restBlocks {start size : Nat} {a : Nat} :
    a ∈ restBlocks start size ↔ ∃ j, 1 ≤ j ∧ j < blockNum size ∧ a = blockAt start size j := by
  simp only [restBlocks, List.mem_map, List.mem_range'_1]
  constructor
  · rintro ⟨j, ⟨hj, hj'⟩, rfl⟩
    exact ⟨j, hj, by omega, rfl⟩
  · rintro ⟨j, hj, hj', rfl⟩
    exact ⟨j, ⟨hj, by omega⟩, rfl⟩

@[simp] theorem CentralCache.publish_centralFreeList (c : CentralCache) (t : SpanTracker) :
    (c.publish t).centralFreeList = c.centralFreeList := by
  unfold CentralCache.publish
  dsimp only
  split <;> rfl

theorem takeHead_mem (c : CentralCache) (m : Memory) (index : Nat) (result : Nat) :
    (takeHead c m index result).2 = m.store result 0 := by
  unfold takeHead
  dsimp only
  split <;> rfl

theorem takeHead_centralFreeList (c : CentralCache) (m : Memory) (index : Nat) (result : Nat) :
    (takeHead c m index result).1.centralFreeList
      = Function.update c.centralFreeList index (m.word result) := by
  unfold takeHead
  dsimp only
  split <;> rfl

/-- The memory after a span has been cut into `n + 2` blocks. -/
def cut (m : Memory) (start size n : Nat) : Memory :=
  ((linkBlocks m start size (n + 1)).store (start + (n + 1) * size) 0).store start 0

theorem cut_start (m : Memory) (start size n : Nat) : (cut m start size n).word start = 0 :=
  Memory.store_same ..

theorem cut_last {m : Memory} {start size n : Nat} (hs : 0 < size) :
    (cut m start size n).word (blockAt start size (n + 1)) = 0 := by
  have hne : blockAt start size (n + 1) ≠ start := by
    have : 0 < (n + 1) * size := Nat.mul_pos (Nat.succ_pos n) hs
    unfold blockAt
    omega
  unfold cut
  rw [Memory.store_other hne]
  exact Memory.store_same ..

theorem cut_link {m : Memory} {start size n j : Nat} (hs : 0 < size) (hj : 1 ≤ j) (hj' : j < n + 1) :
    (cut m start size n).word (blockAt start size j) = blockAt start size (j + 1) := by
  have hne : blockAt start size j ≠ start := by
    have : 0 < j * size := Nat.mul_pos hj hs
    unfold blockAt
    omega
  have hne' : blockAt start size j ≠ start + (n + 1) * size := fun h =>
    absurd (blockAt_inj hs h) (Nat.ne_of_lt hj')
  unfold cut
  rw [Memory.store_other hne, Memory.store_other hne']
  exact linkBlocks_inside hs hj'

theorem cut_outside {m : Memory} {start size n : Nat} {a : Nat}
    (ha : ∀ j, j < n + 2 → a ≠ blockAt start size j) : (cut m start size n).word a = m.word a := by
  have h₀ : a ≠ start := by
    have := ha 0 (by omega)
    rwa [blockAt, Nat.zero_mul, Nat.add_zero] at this
  unfold cut
  have hlast : a ≠ start + (n + 1) * size := ha (n + 1) (by omega)
  rw [Memory.store_other h₀, Memory.store_other hlast]
  exact linkBlocks_outside fun j hj => ha j (by omega)

/-- The blocks behind the first are a chain. -/
theorem cut_chain {m : Memory} {start size n : Nat} (hs : 0 < size) (hstart : 0 < start) :
    Chain 0 (cut m start size n).word (blockAt start size 1)
      ((List.range' 1 (n + 1)).map (blockAt start size)) := by
  refine Chain.of_range (fun j _ _ => ?_) (fun j hj hj' => ?_) ?_
  · unfold blockAt
    omega
  · exact cut_link hs hj (by omega)
  · rw [Nat.add_comm]
    exact cut_last hs

/-- **Carving**: given an empty list and a span whose first word is null, the first block has
    a null link and the list holds the others, in order. -/
theorem carve_spec {c c' : CentralCache} {m m' : Memory} {index start : Nat}
    (h : carve c m index start = (c', m')) (hstart : 0 < start)
    (hempty : c.centralFreeList index = 0) (hzero : m.word start = 0) :
    m'.regions = m.regions ∧ m'.word start = 0 ∧
      (∀ a, (∀ j, j < blockNum (blockSize index) → a ≠ blockAt start (blockSize index) j) →
        m'.word a = m.word a) ∧
      (∃ head, c'.centralFreeList = Function.update c.centralFreeList index head ∧
        Chain 0 m'.word head (restBlocks start (blockSize index))) := by
  have hs := blockSize_pos index
  unfold carve at h
  dsimp only at h
  split at h
  · next hn =>
    simp only [Prod.mk.injEq] at h
    obtain ⟨rfl, rfl⟩ := h
    obtain ⟨n, hn'⟩ : ∃ n, blockNum (blockSize index) = n + 2 := ⟨_, (Nat.sub_add_cancel hn).symm⟩
    have hcut : (((linkBlocks m start (blockSize index) (n + 2 - 1)).store
        (start + (n + 2 - 1) * blockSize index) 0).store start 0) = cut m start (blockSize index) n := rfl
    rw [hn', hcut]
    refine ⟨linkBlocks_regions .., cut_start .., fun a ha => cut_outside ha, _,
      CentralCache.publish_centralFreeList .., ?_⟩
    · -- the first block's link, read before it is cut off
      have hnext : ((linkBlocks m start (blockSize index) (n + 2 - 1)).store
          (start + (n + 2 - 1) * blockSize index) 0).word start = blockAt start (blockSize index) 1 := by
        have hne : start ≠ start + (n + 1) * blockSize index := by
          have : 0 < (n + 1) * blockSize index := Nat.mul_pos (Nat.succ_pos n) hs
          omega
        have hlink : (linkBlocks m start (blockSize index) (n + 1)).word
            (blockAt start (blockSize index) 0) = blockAt start (blockSize index) 1 :=
          linkBlocks_inside hs (Nat.succ_pos n)
        rw [blockAt, Nat.zero_mul, Nat.add_zero] at hlink
        exact (Memory.store_other hne _ _).trans hlink
      rw [hnext, restBlocks, hn']
      exact cut_chain hs hstart
  · next hn =>
    simp only [Prod.mk.injEq] at h
    obtain ⟨rfl, rfl⟩ := h
    have hone : blockNum (blockSize index) = 1 := by
      have := blockNum_pos index
      omega
    refine ⟨rfl, hzero, fun _ _ => rfl, 0, ?_, ?_⟩
    · rw [← hempty, Function.update_eq_self]
    · rw [restBlocks, hone]
      rfl

end Pool
end EpollChat
