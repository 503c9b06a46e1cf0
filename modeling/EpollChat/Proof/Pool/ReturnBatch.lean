import EpollChat.Lib.Ring
import EpollChat.Lib.Tiling
import EpollChat.Proof.Pool.ThreadCache

/-!
# A batch that goes back

The number of blocks that go back crosses to `returnRange` as a number of bytes. `roundUp` makes
the size of a block of it there, and the index of the class here: they are the same size for
every request but that of 0 bytes, which has a class and rounds up to nothing. Then the central
cache takes the first block and nobody has the others (`empty_request_loses_blocks`).
`batch_returned_iff` says that this needs a list of three blocks, and that nothing else is lost.
-/

namespace EpollChat
namespace Pool

open Lib

/-! ## 1. Sizes -/

theorem roundUp_eq {size : Nat} (h : size ≤ MAX_BYTES) : roundUp size = (size + 7) / 8 * 8 := by
  have hmax : MAX_BYTES = 262144 := rfl
  have hmod : (size + ALIGNMENT - 1) % 2 ^ 64 = size + 7 := Nat.mod_eq_of_lt (by rw [ALIGNMENT]; omega)
  rw [roundUp, hmod]
  exact and_two_pow_sub_two_pow (k := 3) (by decide) (by omega)

/-- The two ways to the size of a block agree on everything but 0. -/
theorem roundUp_eq_blockSize {size : Nat} (h : size ≤ MAX_BYTES) (h₀ : size ≠ 0) :
    roundUp size = blockSize (getIndex size) := by
  rw [roundUp_eq h, blockSize, getIndex, ALIGNMENT]
  omega

/-- What `returnRange` makes of the bytes of `n` blocks. -/
def countedBlocks (size n : Nat) : Nat := n * roundUp size % 2 ^ 64 / blockSize (getIndex size)

/-- No bytes are no blocks. -/
theorem countedBlocks_zero (n : Nat) : countedBlocks 0 n = 0 := by
  rw [countedBlocks, show roundUp 0 = 0 by decide, Nat.mul_zero, Nat.zero_mod, Nat.zero_div]

/-- The blocks of one class lie apart, so there are not enough of them to make a `size_t` wrap. -/
theorem countedBlocks_eq {size n : Nat} {l : List Nat} (hsize : size ≤ MAX_BYTES) (h₀ : size ≠ 0)
    (hapart : l.Pairwise fun a b =>
      Range.Apart ⟨a, blockSize (getIndex size)⟩ ⟨b, blockSize (getIndex size)⟩)
    (hend : ∀ a ∈ l, a + blockSize (getIndex size) ≤ 2 ^ 64) (hn : n < l.length) :
    countedBlocks size n = n := by
  have hpos := blockSize_pos (getIndex size)
  have hroom := length_mul_le_of_apart hapart hend
  have hlt : n * blockSize (getIndex size) < 2 ^ 64 :=
    Nat.lt_of_lt_of_le (Nat.mul_lt_mul_of_pos_right hn hpos) hroom
  rw [countedBlocks, roundUp_eq_blockSize hsize h₀, Nat.mod_eq_of_lt hlt, Nat.mul_div_cancel _ hpos]

/-! ## 2. `returnRange` without a delayed return -/

theorem returnRange_untriggered {s : Calls.State} {start index : Nat} {now : Int} (size : Nat)
    (later : Int) (order : List Nat) (rounds : Nat) (hstart : start ≠ 0) (hindex : index < FREE_LIST_SIZE)
    (hquiet : shouldPerformDelayedReturn s.central index (s.central.delayCounts index + 1) now = false) :
    ∃ s', Calls.returnRange s start size index now later order rounds = some (s', []) ∧
      s'.central.centralFreeList = Function.update s.central.centralFreeList index start ∧
      s'.mem = (linkReturned s.central s.mem start size index).2 := by
  have htrig : Calls.triggered (Calls.linked s start size index).central index now = false := by
    simp only [Calls.triggered, Calls.linked, linkReturned, CentralCache.setHead, Function.update_self]
    exact hquiet
  rw [Calls.returnRange, if_neg (by omega)]
  dsimp only
  rw [htrig, if_neg (by simp)]
  exact ⟨_, rfl, rfl, rfl⟩

/-! ## 3. Where the blocks are -/

/-- How many blocks of a list of `n` stay with the thread. -/
def kept (n : Nat) : Nat := if n ≤ 1 then n else max (n / 4) 1

/-- The first blocks of the list `l` are the thread's, in their order and counted, and the others
    are in front of the central list `old`. -/
structure BatchReturned (c c' : ThreadCache) (s' : Calls.State) (index : Nat) (l old : List Nat) : Prop where
  thread : Chain 0 s'.mem.word (c'.freeList index) (l.take (kept l.length))
  count : c'.freeListSize index = if l.length ≤ 1 then c.freeListSize index else kept l.length
  central : Chain 0 s'.mem.word (s'.central.centralFreeList index) (l.drop (kept l.length) ++ old)
  once : (l.take (kept l.length) ++ (l.drop (kept l.length) ++ old)).Nodup

section

variable {c : ThreadCache} {s : Calls.State} {size rounds : Nat} {now : Int} {l old : List Nat}

theorem once_of_chains (hl : Chain 0 s.mem.word (c.freeList (getIndex size)) l)
    (hold : Chain 0 s.mem.word (s.central.centralFreeList (getIndex size)) old)
    (hdisj : l.Disjoint old) (k : Nat) : (l.take k ++ (l.drop k ++ old)).Nodup := by
  rw [← List.append_assoc, List.take_append_drop]
  exact hl.nodup.append hold.nodup hdisj

/-- The whole call, for a list that is cut: the central cache gets as many of the blocks as the
    bytes make. -/
theorem returnToCentralCache_long (later : Int) (order : List Nat) {front back : List Nat} {p x : Nat}
    (hsize : size ≤ MAX_BYTES)
    (hl : Chain 0 s.mem.word (c.freeList (getIndex size)) (front ++ p :: x :: back))
    (hold : Chain 0 s.mem.word (s.central.centralFreeList (getIndex size)) old)
    (hdisj : (front ++ p :: x :: back).Disjoint old)
    (hkeep : front.length + 1 = keepNum (front ++ p :: x :: back).length)
    (hrounds : (front ++ p :: x :: back).length ≤ rounds)
    (hquiet : shouldPerformDelayedReturn s.central (getIndex size)
      (s.central.delayCounts (getIndex size) + 1) now = false) :
    ∃ s', c.returnToCentralCache s (c.freeList (getIndex size)) size now later order rounds
        = some (c.set (getIndex size) (c.freeList (getIndex size)) (front.length + 1), s', []) ∧
      Chain 0 s'.mem.word (c.freeList (getIndex size)) (front ++ [p]) ∧
      Chain 0 s'.mem.word (s'.central.centralFreeList (getIndex size))
        ((x :: back).take (countedBlocks size (back.length + 1) - 1 + 1) ++ old) := by
  have hback := chain_back hl
  have hsplit : front ++ p :: x :: back = (front ++ [p]) ++ (x :: back) := by simp
  have hapart := (List.nodup_append.mp (hsplit ▸ hl.nodup)).2.2
  obtain ⟨s', hret, hheads, hmem⟩ := returnRange_untriggered (s := { s with mem := s.mem.store p 0 })
    ((back.length + 1) * roundUp size % 2 ^ 64) later order rounds (hl.ne_null x (by simp))
    (getIndex_lt hsize) hquiet
  refine ⟨s', ?_, ?_, ?_⟩
  · simp only [ThreadCache.returnToCentralCache, ThreadCache.split_long (hl.walk_eq hrounds) hkeep, hret]
  · rw [hmem]
    refine (chain_front hl).congr fun a ha => Memory.store_other ?_ ..
    rintro rfl
    exact hapart _ ha _ (lastBlock_mem_of_chain hback) rfl
  · rw [hheads, Function.update_self, hmem, ← rangeBlocks_eq_take hback]
    have hin : ∀ a ∈ Calls.rangeBlocks (s.mem.store p 0) (countedBlocks size (back.length + 1) - 1) x,
        a ∈ x :: back := by
      intro a ha
      rw [rangeBlocks_eq_take hback] at ha
      exact List.mem_of_mem_take ha
    refine Calls.rangeBlocks_chain ?_ (fun b hb => hback.ne_null b (hin b hb))
      (fun b _ hb => Memory.store_other hb ..) (Memory.store_same ..) ?_
    · rw [rangeBlocks_eq_take hback]
      exact hback.nodup.sublist (List.take_sublist ..)
    · -- the central list has none of the blocks that were written to
      refine hold.congr fun a ha => ?_
      have hnot : a ∉ (front ++ [p]) ++ (x :: back) := fun h => hdisj (hsplit ▸ h) ha
      have hlast : a ≠ lastBlock (s.mem.store p 0) (countedBlocks size (back.length + 1) - 1) x := by
        rintro rfl
        exact hnot (List.mem_append_right _ (lastBlock_mem_of_chain hback))
      have hp : a ≠ p := by
        rintro rfl
        exact hnot (by simp)
      exact (Memory.store_other hlast ..).trans (Memory.store_other hp ..)

/-- The bytes make all of the blocks, or there is one block only and they make none of it. -/
theorem takes_all_iff {front back : List Nat} {p x : Nat} (hsize : size ≤ MAX_BYTES)
    (hkeep : front.length + 1 = keepNum (front ++ p :: x :: back).length)
    (hapart : (front ++ p :: x :: back).Pairwise fun a b =>
      Range.Apart ⟨a, blockSize (getIndex size)⟩ ⟨b, blockSize (getIndex size)⟩)
    (hend : ∀ a ∈ front ++ p :: x :: back, a + blockSize (getIndex size) ≤ 2 ^ 64) :
    (x :: back).take (countedBlocks size (back.length + 1) - 1 + 1) = x :: back ↔
      size ≠ 0 ∨ (front ++ p :: x :: back).length ≤ 2 := by
  have hlen : (front ++ p :: x :: back).length = front.length + (back.length + 2) := by simp
  by_cases h₀ : size = 0
  · subst h₀
    rw [countedBlocks_zero]
    constructor
    · intro htake
      have hone := congrArg List.length htake
      simp only [List.length_take, List.length_cons] at hone
      unfold keepNum at hkeep
      exact Or.inr (by omega)
    · intro hfit
      have hshort := hfit.resolve_left fun h => h rfl
      exact List.take_of_length_le (by rw [List.length_cons]; omega)
  · rw [countedBlocks_eq hsize h₀ hapart hend (by omega)]
    exact ⟨fun _ => Or.inl h₀, fun _ => List.take_of_length_le (by simp)⟩

/-- **No block of a batch is lost, exactly if its size is not 0 or there are at most two of them.** -/
theorem batch_returned_iff {later : Int} {order : List Nat} (hsize : size ≤ MAX_BYTES)
    (hl : Chain 0 s.mem.word (c.freeList (getIndex size)) l)
    (hold : Chain 0 s.mem.word (s.central.centralFreeList (getIndex size)) old)
    (hdisj : l.Disjoint old)
    (hapart : l.Pairwise fun a b =>
      Range.Apart ⟨a, blockSize (getIndex size)⟩ ⟨b, blockSize (getIndex size)⟩)
    (hend : ∀ a ∈ l, a + blockSize (getIndex size) ≤ 2 ^ 64) (hrounds : l.length ≤ rounds)
    (hquiet : shouldPerformDelayedReturn s.central (getIndex size)
      (s.central.delayCounts (getIndex size) + 1) now = false) :
    ∃ c' s', c.returnToCentralCache s (c.freeList (getIndex size)) size now later order rounds
        = some (c', s', []) ∧
      (BatchReturned c c' s' (getIndex size) l old ↔ size ≠ 0 ∨ l.length ≤ 2) := by
  have honce := once_of_chains hl hold hdisj (kept l.length)
  by_cases hshort : l.length ≤ 1
  · have hkept : kept l.length = l.length := if_pos hshort
    refine ⟨c, s, ?_, fun _ => Or.inr (by omega), fun _ => ⟨?_, (if_pos hshort).symm, ?_, honce⟩⟩
    · simp only [ThreadCache.returnToCentralCache, ThreadCache.split_short (hl.walk_eq hrounds) hshort]
    · rw [hkept, List.take_length]
      exact hl
    · rw [hkept, List.drop_length]
      exact hold
  · obtain ⟨hpos, hlt⟩ := keepNum_lt (show 2 ≤ l.length by omega)
    obtain ⟨front, p, x, back, rfl, hkeep⟩ := exists_cut hpos hlt
    obtain ⟨s', hret, hthread, hcentral⟩ := returnToCentralCache_long later order hsize hl hold hdisj
      hkeep hrounds hquiet
    have hkept : kept (front ++ p :: x :: back).length = front.length + 1 := by
      rw [hkeep]
      exact if_neg hshort
    have hall := takes_all_iff hsize hkeep hapart hend
    refine ⟨_, s', hret, ?_, ?_⟩
    · intro hb
      have hc := hb.central
      rw [hkept, drop_cut] at hc
      exact hall.mp (List.append_cancel_right (hcentral.unique hc))
    · intro hfit
      rw [hall.mpr hfit] at hcentral
      refine ⟨?_, ?_, ?_, honce⟩
      · rw [hkept, take_cut]
        dsimp only [ThreadCache.set]
        rw [Function.update_self]
        exact hthread
      · rw [if_neg hshort, hkept]
        exact Function.update_self ..
      · rw [hkept, drop_cut]
        exact hcentral

end

/-- Three blocks of `bytes` bytes on a thread's list, and none on the central one. -/
def threeBlocks (bytes : Nat) : Calls.State where
  mem :=
    { word := fun a =>
        if a = 4096 then 4096 + bytes else if a = 4096 + bytes then 4096 + 2 * bytes else 0 }

def threeBlocksCache : ThreadCache where
  freeList _ := 4096
  freeListSize _ := 3

theorem batch_returned_sixteen : ∃ c' s',
    threeBlocksCache.returnToCentralCache (threeBlocks 16) 4096 16 0 0 [] 3 = some (c', s', []) ∧
      BatchReturned threeBlocksCache c' s' 1 [4096, 4112, 4128] [] := by
  have hl : Chain 0 (threeBlocks 16).mem.word 4096 [4096, 4112, 4128] :=
    ⟨rfl, by decide, rfl, by decide, rfl, by decide, rfl⟩
  have hold : Chain 0 (threeBlocks 16).mem.word 0 [] := rfl
  obtain ⟨c', s', hret, hiff⟩ := @batch_returned_iff threeBlocksCache (threeBlocks 16) 16 3 0
    [4096, 4112, 4128] [] 0 [] (by decide) hl hold
    (List.disjoint_nil_right _) (by decide) (by simp [blockSize, getIndex, ALIGNMENT]) (by decide) (by decide)
  exact ⟨c', s', hret, hiff.mpr (Or.inl (by decide))⟩

/-- **Of three blocks of an empty request one is kept, one goes back and one is lost.** -/
theorem empty_request_loses_blocks : ¬ ∀ (c : ThreadCache) (s : Calls.State) (size rounds : Nat)
    (now later : Int) (order l old : List Nat), size ≤ MAX_BYTES →
    Chain 0 s.mem.word (c.freeList (getIndex size)) l →
    Chain 0 s.mem.word (s.central.centralFreeList (getIndex size)) old → l.Disjoint old →
    (l.Pairwise fun a b => Range.Apart ⟨a, blockSize (getIndex size)⟩ ⟨b, blockSize (getIndex size)⟩) →
    (∀ a ∈ l, a + blockSize (getIndex size) ≤ 2 ^ 64) → l.length ≤ rounds →
    shouldPerformDelayedReturn s.central (getIndex size)
      (s.central.delayCounts (getIndex size) + 1) now = false →
    ∃ c' s', c.returnToCentralCache s (c.freeList (getIndex size)) size now later order rounds
        = some (c', s', []) ∧ BatchReturned c c' s' (getIndex size) l old := by
  intro h
  have hl : Chain 0 (threeBlocks 8).mem.word 4096 [4096, 4104, 4112] :=
    ⟨rfl, by decide, rfl, by decide, rfl, by decide, rfl⟩
  have hold : Chain 0 (threeBlocks 8).mem.word 0 [] := rfl
  obtain ⟨c', s', hret, hb⟩ := h threeBlocksCache (threeBlocks 8) 0 3 0 0 [] [4096, 4104, 4112] []
    (by decide) hl hold (List.disjoint_nil_right _) (by decide)
    (by simp [blockSize, getIndex, ALIGNMENT]) (by decide) (by decide)
  obtain ⟨s'', hret', -, hcentral⟩ := @returnToCentralCache_long threeBlocksCache (threeBlocks 8) 0 3 0
    [] 0 [] [] [4112] 4096 4104 (by decide) hl hold (List.disjoint_nil_right _) (by decide) (by decide) (by decide)
  obtain ⟨-, heq⟩ := Prod.mk.inj (Option.some.inj (hret.symm.trans hret'))
  obtain ⟨rfl, -⟩ := Prod.mk.inj heq
  rw [countedBlocks_zero] at hcentral
  exact absurd (hcentral.unique hb.central) (by decide)

end Pool
end EpollChat
