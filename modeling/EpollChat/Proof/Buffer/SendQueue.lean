import EpollChat.Buffer.Calls
import EpollChat.Proof.Buffer.Send
import Mathlib.Logic.Equiv.Basic

/-!
# Any use of two send buffers is that of two queues

A block goes back to the pool with the capacity of the buffer that holds it, and the capacity
changes only together with the block, also in a `swap`: so a size that goes with a block goes
with it for good (`SizesKept`).

`consume` adds to the offset what it is told to, and looks at the sum only afterwards. A length
that makes the offset wrap brings bytes back that have been sent (`wrapped_consume_resends`).
`send_follows_iff` says that nothing else can go wrong below `2 ^ 62` bytes.
-/

namespace EpollChat

open Lib

namespace Heap

theorem allocate_sizes {h h' : Heap} {size b : Nat} (ha : h.allocate size = some (b, h')) :
    (∀ x, h'.blockSize x = if x = h.next then size else h.blockSize x) ∧ h'.frees = h.frees := by
  unfold allocate at ha
  split at ha
  · exact absurd ha (by simp)
  · simp only [Option.some.injEq, Prod.mk.injEq] at ha
    obtain ⟨-, rfl⟩ := ha
    exact ⟨fun x => rfl, rfl⟩

end Heap

namespace PoolSendBuffer

/-! ## 1. Blocks and their sizes -/

theorem create_sizes {h h' : Heap} {b : PoolSendBuffer} {cap : Nat}
    (hc : create h cap = some (b, h')) : b.m_capacity = cap ∧
      (∀ x, h'.blockSize x = if x = h.next then cap else h.blockSize x) ∧ h'.frees = h.frees := by
  unfold create at hc
  cases ha : h.allocate cap with
  | none => rw [ha] at hc; exact absurd hc (by simp)
  | some p =>
    obtain ⟨d, h₁⟩ := p
    obtain ⟨hsizes, hfrees⟩ := Heap.allocate_sizes ha
    rw [ha] at hc
    simp only [Option.some.injEq, Prod.mk.injEq] at hc
    obtain ⟨rfl, rfl⟩ := hc
    exact ⟨rfl, hsizes, hfrees⟩

/-- The block of the buffer is of its capacity, before and after; every other block keeps its
    size, and no block was given back but the old one of the buffer. -/
structure SizesKept (b b' : PoolSendBuffer) (h h' : Heap) : Prop where
  own : h'.blockSize b'.m_data = b'.m_capacity
  old : ∀ x, x < h.next → h'.blockSize x = h.blockSize x
  frees : h'.frees = h.frees ∨ h'.frees = h.frees ++ [(b.m_data, b.m_capacity)]
  capacity_le : b.m_capacity ≤ b'.m_capacity

theorem grow_sizes {b b' : PoolSendBuffer} {h h' : Heap} {len : Nat}
    (hlen : b.m_size + len < 2 ^ 62) (hown : h.blockSize b.m_data = b.m_capacity)
    (hg : b.grow h len = some (b', h')) : SizesKept b b' h h' := by
  have hreq : (b.m_size + len) % 2 ^ 64 = b.m_size + len := Nat.mod_eq_of_lt (by omega)
  simp only [grow, hreq] at hg
  split at hg
  · simp only [Option.some.injEq, Prod.mk.injEq] at hg
    obtain ⟨rfl, rfl⟩ := hg
    exact ⟨hown, fun x _ => rfl, Or.inl rfl, Nat.le_refl _⟩
  · next hsmall =>
    cases hcap : growCapacity 65 b.m_capacity (b.m_size + len) with
    | none => rw [hcap] at hg; exact absurd hg (by simp)
    | some newCapacity =>
      rw [hcap] at hg
      dsimp only at hg
      have hroom := le_growCapacity hcap
      cases ha : h.allocate newCapacity with
      | none => rw [ha] at hg; exact absurd hg (by simp)
      | some p =>
        obtain ⟨d, h₁⟩ := p
        obtain ⟨-, rfl, -, -⟩ := Heap.allocate_eq ha
        obtain ⟨hsizes, hfrees⟩ := Heap.allocate_sizes ha
        rw [ha] at hg
        simp only [Option.some.injEq, Prod.mk.injEq] at hg
        obtain ⟨rfl, rfl⟩ := hg
        refine ⟨?_, fun x hx => ?_, Or.inr ?_, ?_⟩
        · show h₁.blockSize h.next = newCapacity
          rw [hsizes, if_pos rfl]
        · show h₁.blockSize x = h.blockSize x
          rw [hsizes, if_neg (by omega)]
        · show h₁.frees ++ [(b.m_data, b.m_capacity)] = _
          rw [hfrees]
        · show b.m_capacity ≤ newCapacity
          omega

/-- Moving the unsent bytes to the front concerns neither blocks nor sizes. -/
theorem compact_sizes (b : PoolSendBuffer) (h : Heap) :
    (b.compact h).1.m_data = b.m_data ∧ (b.compact h).1.m_capacity = b.m_capacity ∧
      (b.compact h).2.blockSize = h.blockSize ∧ (b.compact h).2.frees = h.frees ∧
      (b.compact h).2.next = h.next := by
  unfold compact
  split
  · exact ⟨rfl, rfl, rfl, rfl, rfl⟩
  · exact ⟨rfl, rfl, rfl, rfl, rfl⟩

theorem append_sizes {b b' : PoolSendBuffer} {h h' : Heap} (hok : b.Ok h) {src : Bytes}
    (hlen : b.remaining + src.length < 2 ^ 62) (hown : h.blockSize b.m_data = b.m_capacity)
    (ha : b.append h src = some (b', h')) : SizesKept b b' h h' := by
  unfold append at ha
  split at ha
  · simp only [Option.some.injEq, Prod.mk.injEq] at ha
    obtain ⟨rfl, rfl⟩ := ha
    exact ⟨hown, fun x _ => rfl, Or.inl rfl, Nat.le_refl _⟩
  · cases he : b.ensureCapacityForAppend h src.length with
    | none => rw [he] at ha; exact absurd ha (by simp)
    | some p =>
      obtain ⟨b₁, h₁⟩ := p
      rw [he] at ha
      simp only [Option.some.injEq, Prod.mk.injEq] at ha
      obtain ⟨rfl, rfl⟩ := ha
      obtain ⟨hdata, hcap, hsizes, hfrees, hnext⟩ := compact_sizes b h
      have hsize := compact_size hok
      obtain ⟨hown₁, hold₁, hfrees₁, hcap₁⟩ :=
        grow_sizes (by omega) (by rw [hsizes, hdata, hcap]; exact hown) he
      rw [hfrees, hdata, hcap] at hfrees₁
      rw [hcap] at hcap₁
      refine ⟨hown₁, fun x hx => ?_, hfrees₁, hcap₁⟩
      show h₁.blockSize x = h.blockSize x
      rw [hold₁ x (by omega), hsizes]

theorem consume_sizes (b : PoolSendBuffer) (len : Nat) :
    (b.consume len).m_data = b.m_data ∧ (b.consume len).m_capacity = b.m_capacity := by
  unfold consume
  dsimp only
  split
  · exact ⟨rfl, rfl⟩
  · exact ⟨rfl, rfl⟩

/-! ## 2. Two buffers -/

/-- The two buffers hold the two contents, each in a block of its own and of its capacity, and
    what was given back was given back with its size. -/
structure Paired (s : Pair) (content : Which → Bytes) : Prop where
  ok : ∀ i, (s.buffer i).Ok s.heap
  content_eq : ∀ i, (s.buffer i).content s.heap = content i
  apart : ∀ i j, i ≠ j → (s.buffer i).m_data ≠ (s.buffer j).m_data
  capacity_pos : ∀ i, 0 < (s.buffer i).m_capacity
  own : ∀ i, s.heap.blockSize (s.buffer i).m_data = (s.buffer i).m_capacity
  frees : ∀ f ∈ s.heap.frees, f.1 < s.heap.next ∧ f.2 = s.heap.blockSize f.1

theorem createPair_paired {h : Heap} {cap otherCap : Nat} {s : Pair} (hcap : 0 < cap)
    (hother : 0 < otherCap) (hlog : h.frees = []) (hs : createPair h cap otherCap = some s) :
    Paired s fun _ => [] := by
  unfold createPair at hs
  cases hb : create h cap with
  | none => rw [hb] at hs; exact absurd hs (by simp)
  | some p =>
    obtain ⟨b, h₁⟩ := p
    rw [hb] at hs
    dsimp only at hs
    cases hb' : create h₁ otherCap with
    | none => rw [hb'] at hs; exact absurd hs (by simp)
    | some p' =>
      obtain ⟨b', h₂⟩ := p'
      rw [hb'] at hs
      simp only [Option.some.injEq] at hs
      subst hs
      obtain ⟨hok, hnil, hdata, hnext, hbytes⟩ := create_spec hb
      obtain ⟨hok', hnil', hdata', hnext', hbytes'⟩ := create_spec hb'
      obtain ⟨hcapacity, hsizes, hfrees⟩ := create_sizes hb
      obtain ⟨hcapacity', hsizes', hfrees'⟩ := create_sizes hb'
      refine ⟨fun i => ?_, fun i => ?_, fun i j hij => ?_, fun i => ?_, fun i => ?_, fun f hf => ?_⟩
      · cases i with
        | one => exact hok.mono (show h₁.next ≤ h₂.next by omega)
        | other => exact hok'
      · cases i with
        | one => exact (content_congr (by rw [hbytes'])).trans hnil
        | other => exact hnil'
      · have hne : b.m_data ≠ b'.m_data := by omega
        cases i with
        | one =>
          cases j with
          | one => exact absurd rfl hij
          | other => exact hne
        | other =>
          cases j with
          | one => exact hne.symm
          | other => exact absurd rfl hij
      · cases i with
        | one => exact hcapacity.symm ▸ hcap
        | other => exact hcapacity'.symm ▸ hother
      · cases i with
        | one =>
          show h₂.blockSize b.m_data = b.m_capacity
          rw [hsizes', if_neg (by omega), hsizes, if_pos hdata, hcapacity]
        | other =>
          show h₂.blockSize b'.m_data = b'.m_capacity
          rw [hsizes', if_pos hdata', hcapacity']
      · have hnone : h₂.frees = [] := by rw [hfrees', hfrees, hlog]
        exact absurd (hnone ▸ hf : f ∈ ([] : List (Nat × Nat))) List.not_mem_nil

/-- One buffer is exchanged for another that owns its block; the other buffer does not notice. -/
theorem Paired.update {s : Pair} {content : Which → Bytes} (hp : Paired s content) (i : Which)
    {b' : PoolSendBuffer} {h' : Heap} {bytes : Bytes} (hok : b'.Ok h') (hcont : b'.content h' = bytes)
    (hframe : Frame (s.buffer i) b' s.heap h') (hsizes : SizesKept (s.buffer i) b' s.heap h') :
    Paired ⟨Function.update s.buffer i b', h'⟩ (Function.update content i bytes) := by
  have hpos := hp.capacity_pos i
  have hle := hsizes.capacity_le
  have hother : ∀ j, j ≠ i → b'.m_data ≠ (s.buffer j).m_data := by
    intro j hj
    rcases hframe.data with h | h
    · rw [h]
      exact hp.apart i j (Ne.symm hj)
    · have := (hp.ok j).data_lt
      omega
  refine ⟨fun j => ?_, fun j => ?_, fun j k hjk => ?_, fun j => ?_, fun j => ?_, fun f hf => ?_⟩ <;>
    dsimp only
  · by_cases hj : j = i
    · subst hj
      rw [Function.update_self]
      exact hok
    · rw [Function.update_of_ne hj]
      exact (hp.ok j).mono hframe.next_le
  · by_cases hj : j = i
    · subst hj
      rw [Function.update_self, Function.update_self]
      exact hcont
    · rw [Function.update_of_ne hj, Function.update_of_ne hj, ← hp.content_eq j]
      exact content_congr (hframe.bytes _ (hp.ok j).data_lt (hp.apart j i hj))
  · by_cases hj : j = i
    · subst hj
      rw [Function.update_self, Function.update_of_ne (Ne.symm hjk)]
      exact hother k (Ne.symm hjk)
    · rw [Function.update_of_ne hj]
      by_cases hk : k = i
      · subst hk
        rw [Function.update_self]
        exact (hother j hj).symm
      · rw [Function.update_of_ne hk]
        exact hp.apart j k hjk
  · by_cases hj : j = i
    · subst hj
      rw [Function.update_self]
      omega
    · rw [Function.update_of_ne hj]
      exact hp.capacity_pos j
  · by_cases hj : j = i
    · subst hj
      rw [Function.update_self]
      exact hsizes.own
    · rw [Function.update_of_ne hj, ← hp.own j]
      exact hsizes.old _ (hp.ok j).data_lt
  · -- a block that was given back before, or the one the buffer has just left
    have hback : f ∈ s.heap.frees ∨ f = ((s.buffer i).m_data, (s.buffer i).m_capacity) := by
      rcases hsizes.frees with h | h
      · exact Or.inl (h ▸ hf)
      · rcases List.mem_append.mp (h ▸ hf) with hf | hf
        · exact Or.inl hf
        · exact Or.inr (List.mem_singleton.mp hf)
    rcases hback with hf | rfl
    · obtain ⟨hlt, hsize⟩ := hp.frees f hf
      exact ⟨Nat.lt_of_lt_of_le hlt hframe.next_le, by rw [hsize, hsizes.old _ hlt]⟩
    · have hlt := (hp.ok i).data_lt
      exact ⟨Nat.lt_of_lt_of_le hlt hframe.next_le, by rw [hsizes.old _ hlt, hp.own i]⟩

theorem Paired.append {s : Pair} {content : Which → Bytes} (hp : Paired s content) (i : Which)
    {src : Bytes} (hlen : (content i).length + src.length < 2 ^ 62) :
    ∃ s', call s (.append i src) = some (s', []) ∧
      Paired s' (Function.update content i (content i ++ src)) := by
  have hok := hp.ok i
  have hrem : (s.buffer i).remaining + src.length < 2 ^ 62 := by
    rw [← length_content _ s.heap, hp.content_eq i]
    exact hlen
  obtain ⟨⟨b', h'⟩, hb⟩ := append_isSome hok (hp.capacity_pos i) hrem
  obtain ⟨hok', hcont, hframe⟩ := append_spec hok (by omega) hb
  refine ⟨_, by rw [call, hb], hp.update i hok' ?_ hframe (append_sizes hok hrem (hp.own i) hb)⟩
  rw [hcont, hp.content_eq i]

theorem Paired.consume {s : Pair} {content : Which → Bytes} (hp : Paired s content) (i : Which)
    {len : Nat} (hlen : (s.buffer i).m_offset + len < 2 ^ 64) :
    Paired { s with buffer := Function.update s.buffer i ((s.buffer i).consume len) }
      (Function.update content i ((content i).drop (min len (content i).length))) := by
  obtain ⟨hok, hcont, hdata⟩ := consume_spec (hp.ok i) hlen
  obtain ⟨-, hcap⟩ := consume_sizes (s.buffer i) len
  refine hp.update i hok ?_ ⟨Nat.le_refl _, Or.inl hdata, fun _ _ _ => rfl⟩ ⟨?_, fun _ _ => rfl, Or.inl rfl, ?_⟩
  · rw [hcont, hp.content_eq i, ← List.drop_eq_drop_min]
  · rw [hdata, hcap, hp.own i]
  · rw [hcap]

/-- `swap` gives each object another's block, with all that belongs to it. -/
theorem Paired.swap {s : Pair} {content : Which → Bytes} (hp : Paired s content) (i j : Which) :
    Paired { s with buffer := Function.update (Function.update s.buffer i (s.buffer j)) j (s.buffer i) }
      (Function.update (Function.update content i (content j)) j (content i)) := by
  rw [← Equiv.comp_swap_eq_update j i s.buffer, ← Equiv.comp_swap_eq_update j i content]
  exact ⟨fun k => hp.ok _, fun k => hp.content_eq _,
    fun k l hkl => hp.apart _ _ ((Equiv.swap j i).injective.ne hkl), fun k => hp.capacity_pos _,
    fun k => hp.own _, hp.frees⟩

/-! ## 3. Whole runs -/

/-- What two buffers and their queues have in common; the last field counts the destructors in. -/
structure Refines (s : Pair) (content : Which → Bytes) : Prop where
  content_eq : ∀ i, (s.buffer i).content s.heap = content i
  offset_le : ∀ i, (s.buffer i).m_offset ≤ (s.buffer i).m_size
  size_le : ∀ i, (s.buffer i).m_size ≤ (s.buffer i).m_capacity
  frees : ∀ f ∈ (destroyPair s).frees, f.2 = (destroyPair s).blockSize f.1

theorem Paired.refines {s : Pair} {content : Which → Bytes} (hp : Paired s content) :
    Refines s content := by
  refine ⟨hp.content_eq, fun i => (hp.ok i).offset_le, fun i => (hp.ok i).size_le, fun f hf => ?_⟩
  have hlast : f ∈ s.heap.frees ++ [((s.buffer .one).m_data, (s.buffer .one).m_capacity)] ++
      [((s.buffer .other).m_data, (s.buffer .other).m_capacity)] := hf
  show f.2 = s.heap.blockSize f.1
  rcases List.mem_append.mp hlast with hf | hf
  · rcases List.mem_append.mp hf with hf | hf
    · exact (hp.frees f hf).2
    · rw [List.mem_singleton.mp hf]
      exact (hp.own .one).symm
  · rw [List.mem_singleton.mp hf]
    exact (hp.own .other).symm

/-- `m_offset += len` does not wrap. -/
def CallNoWrap (s : Pair) : Call → Prop
  | .append _ _ => True
  | .consume i len => (s.buffer i).m_offset + len.toNat < 2 ^ 64
  | .swap _ _ => True

instance decidableCallNoWrap (s : Pair) : ∀ c, Decidable (CallNoWrap s c)
  | .append _ _ => isTrue trivial
  | .consume i len => inferInstanceAs (Decidable ((s.buffer i).m_offset + len.toNat < 2 ^ 64))
  | .swap _ _ => isTrue trivial

/-- **Two send buffers are two byte queues with matched block sizes exactly as long as no offset
    wraps.** -/
theorem send_follows_iff {h : Heap} {capacity otherCapacity : Nat} {s : Pair} (hcap : 0 < capacity)
    (hother : 0 < otherCapacity) (hlog : h.frees = [])
    (hcreate : createPair h capacity otherCapacity = some s) {calls : List Call}
    {content : Which → Bytes} (hrun : Machine.run queueCall (fun _ => []) calls = some (content, [])) :
    Machine.Follows call queueCall Refines s (fun _ => []) calls ↔
      Machine.Meets call CallNoWrap s calls := by
  refine Machine.follows_iff_meets Paired Paired.refines ?_ ?_
    (createPair_paired hcap hother hlog hcreate) hrun
  · intro s content c content' es hp hc hq
    cases c with
    | append i src =>
      simp only [queueCall, Option.ite_none_right_eq_some, Option.some.injEq, Prod.mk.injEq] at hq
      obtain ⟨hlen, rfl, rfl⟩ := hq
      exact hp.append i hlen
    | consume i len =>
      simp only [queueCall, Option.some.injEq, Prod.mk.injEq] at hq
      obtain ⟨rfl, rfl⟩ := hq
      exact ⟨_, rfl, hp.consume i hc⟩
    | swap i j =>
      simp only [queueCall, Option.some.injEq, Prod.mk.injEq] at hq
      obtain ⟨rfl, rfl⟩ := hq
      exact ⟨_, rfl, hp.swap i j⟩
  · intro s s' content c content' es hp hq hs hr
    cases c with
    | append i src => exact trivial
    | swap i j => exact trivial
    | consume i len =>
      simp only [queueCall, call, Option.some.injEq, Prod.mk.injEq] at hq hs
      obtain ⟨rfl, -⟩ := hq
      obtain ⟨rfl, -⟩ := hs
      by_contra hwrap
      -- the content has grown, and the queue's has not
      have hgrown := consume_wraps (hp.ok i) len.toNat_lt (Nat.le_of_not_lt hwrap)
      have hlen := congrArg List.length (hr.content_eq i)
      simp only [Function.update_self, length_content, List.length_drop] at hlen
      have hold := congrArg List.length (hp.content_eq i)
      rw [length_content] at hold
      omega

/-- Two buffers of four bytes each, in an empty pool. -/
def pairOfFour : Pair where
  buffer
    | .one => { m_capacity := 4, m_data := 0 }
    | .other => { m_capacity := 4, m_data := 1 }
  heap := { next := 2, blockSize := fun b => if b = 1 then 4 else if b = 0 then 4 else 0 }

theorem createPair_four : createPair {} 4 4 = some pairOfFour := rfl

/-- The capacity of 4 is outgrown, and the block that is left is given back by the other object. -/
theorem send_follows_iff_abc : Machine.Follows call queueCall Refines pairOfFour (fun _ => [])
    [.append .one (ascii "abc"), .consume .one 1, .swap .one .other, .append .other (ascii "defg")] :=
  (send_follows_iff (by decide : 0 < 4) (by decide : 0 < 4) rfl createPair_four rfl).mpr (by decide)

/-- Two bytes, of which one is consumed before as many as a `size_t` can say. -/
def overconsumed : List Call :=
  [.append .one (ascii "ab"), .consume .one 1, .consume .one 18446744073709551615]

/-- **What has been consumed is there again**, where the queue is empty. -/
theorem wrapped_consume_resends : ¬ ∀ (h : Heap) (capacity otherCapacity : Nat) (s : Pair)
    (calls : List Call) (content : Which → Bytes), 0 < capacity → 0 < otherCapacity → h.frees = [] →
    createPair h capacity otherCapacity = some s →
    Machine.run queueCall (fun _ => []) calls = some (content, []) →
    Machine.Follows call queueCall Refines s (fun _ => []) calls := by
  intro hall
  have hfollows := hall {} 4 4 pairOfFour overconsumed _ (by decide) (by decide) rfl createPair_four rfl
  obtain ⟨s', hrun, hr⟩ := hfollows.run rfl
  have hcode : (Machine.run call pairOfFour overconsumed).map
      (fun p => (p.1.buffer .one).content p.1.heap) = some (ascii "ab") := rfl
  rw [hrun, Option.map_some, hr.content_eq] at hcode
  exact absurd hcode (by decide)

end PoolSendBuffer

end EpollChat
