import EpollChat.Buffer.Send

/-!
# A send buffer is a byte queue over its own block

One lemma per operation, and no caller looks inside a buffer again: `append_spec` says
that an `append` which comes back has put its bytes behind the content, and that every
block it did not own reads as before, whether it compacted, moved to another block or
did neither; `append_isSome` says when it does come back.
-/

namespace EpollChat

open Lib

namespace Heap

@[simp] theorem setBlock_same (h : Heap) (b : Nat) (f : Nat → UInt8) :
    (h.setBlock b f).bytes b = f := by
  simp [setBlock]

@[simp] theorem setBlock_other (h : Heap) {b b' : Nat} (f : Nat → UInt8) (hne : b' ≠ b) :
    (h.setBlock b f).bytes b' = h.bytes b' := by
  simp [setBlock, hne]

@[simp] theorem deallocate_other (h : Heap) {b b' : Nat} (size : Nat) (hne : b' ≠ b) :
    (h.deallocate b size).bytes b' = h.bytes b' := by
  simp [deallocate, setBlock, hne]

theorem allocate_eq {h h' : Heap} {size b : Nat} (ha : h.allocate size = some (b, h')) :
    size < 2 ^ 63 ∧ b = h.next ∧ h'.next = h.next + 1 ∧ h'.bytes = h.bytes := by
  unfold allocate at ha
  split at ha
  · exact absurd ha (by simp)
  · next hs =>
    simp only [Option.some.injEq, Prod.mk.injEq] at ha
    obtain ⟨rfl, rfl⟩ := ha
    exact ⟨by omega, rfl, rfl, rfl⟩

end Heap

namespace PoolSendBuffer

/-! ## 1. Well-formed buffers -/

/-- The marks are in order, the block is an allocated one. -/
structure Ok (b : PoolSendBuffer) (h : Heap) : Prop where
  offset_le : b.m_offset ≤ b.m_size
  size_le : b.m_size ≤ b.m_capacity
  capacity_lt : b.m_capacity < 2 ^ 63
  data_lt : b.m_data < h.next

@[simp] theorem length_content (b : PoolSendBuffer) (h : Heap) :
    (b.content h).length = b.remaining := by
  simp [content]

theorem content_eq_nil {b : PoolSendBuffer} {h : Heap} : b.content h = [] ↔ b.remaining = 0 := by
  rw [← List.length_eq_zero_iff, length_content]

theorem content_congr {b : PoolSendBuffer} {h h' : Heap} (hb : h'.bytes b.m_data = h.bytes b.m_data) :
    b.content h' = b.content h := by
  rw [content, content, hb]

theorem Ok.mono {b : PoolSendBuffer} {h h' : Heap} (hok : b.Ok h) (hn : h.next ≤ h'.next) :
    b.Ok h' := ⟨hok.offset_le, hok.size_le, hok.capacity_lt, Nat.lt_of_lt_of_le hok.data_lt hn⟩

theorem create_spec {h h' : Heap} {b : PoolSendBuffer} {cap : Nat}
    (hc : create h cap = some (b, h')) :
    b.Ok h' ∧ b.content h' = [] ∧ b.m_data = h.next ∧ h'.next = h.next + 1 ∧ h'.bytes = h.bytes := by
  unfold create at hc
  cases ha : h.allocate cap with
  | none => rw [ha] at hc; exact absurd hc (by simp)
  | some p =>
    obtain ⟨d, h₁⟩ := p
    obtain ⟨hsz, rfl, hn, hb⟩ := Heap.allocate_eq ha
    rw [ha] at hc
    simp only [Option.some.injEq, Prod.mk.injEq] at hc
    obtain ⟨rfl, rfl⟩ := hc
    exact ⟨⟨Nat.le_refl _, Nat.zero_le _, hsz, by simp [hn]⟩, rfl, rfl, hn, hb⟩

/-! ## 2. `consume` -/

/-- As long as the offset does not wrap, `consume` drops bytes, and all of them if it is asked for
    more than there are. -/
theorem consume_spec {b : PoolSendBuffer} {h : Heap} (hok : b.Ok h) {len : Nat}
    (hlen : b.m_offset + len < 2 ^ 64) :
    (b.consume len).Ok h ∧ (b.consume len).content h = (b.content h).drop len ∧
      (b.consume len).m_data = b.m_data := by
  obtain ⟨ho, hs, hc, hd⟩ := hok
  rw [consume, Nat.mod_eq_of_lt hlen]
  split
  · next hle =>
    refine ⟨⟨Nat.le_refl _, Nat.zero_le _, hc, hd⟩, ?_, rfl⟩
    rw [List.drop_eq_nil_of_le (by rw [length_content]; unfold remaining; omega)]
    rfl
  · next hlt =>
    refine ⟨⟨by dsimp only; omega, hs, hc, hd⟩, ?_, rfl⟩
    rw [content, content, drop_slice]
    congr 1
    simp only [remaining]
    omega

theorem Ok.consume_fits {b : PoolSendBuffer} {h : Heap} (hok : b.Ok h) {len : Nat}
    (hlen : len ≤ b.remaining) : b.m_offset + len < 2 ^ 64 := by
  have ho := hok.offset_le
  have hs := hok.size_le
  have hc := hok.capacity_lt
  unfold remaining at hlen
  omega

/-- An offset that wraps comes out before the old one. -/
theorem consume_wraps {b : PoolSendBuffer} {h : Heap} (hok : b.Ok h) {len : Nat} (hlt : len < 2 ^ 64)
    (hlen : 2 ^ 64 ≤ b.m_offset + len) : b.remaining < (b.consume len).remaining := by
  have ho := hok.offset_le
  have hs := hok.size_le
  have hc := hok.capacity_lt
  have hmod : (b.m_offset + len) % 2 ^ 64 = b.m_offset + len - 2 ^ 64 := by
    rw [Nat.mod_eq_sub_mod (by omega), Nat.mod_eq_of_lt (by omega)]
  rw [consume, hmod, if_neg (by omega)]
  simp only [remaining]
  omega

/-! ## 3. `append` -/

/-- What a write to buffer `b` may change: its own block, and blocks not yet given out. -/
structure Frame (b b' : PoolSendBuffer) (h h' : Heap) : Prop where
  next_le : h.next ≤ h'.next
  data : b'.m_data = b.m_data ∨ h.next ≤ b'.m_data
  bytes : ∀ x, x < h.next → x ≠ b.m_data → h'.bytes x = h.bytes x

theorem Frame.trans {a b c : PoolSendBuffer} {h₁ h₂ h₃ : Heap} (hab : Frame a b h₁ h₂)
    (hbc : Frame b c h₂ h₃) : Frame a c h₁ h₃ := by
  refine ⟨Nat.le_trans hab.next_le hbc.next_le, ?_, ?_⟩
  · rcases hbc.data with h | h
    · rw [h]; exact hab.data
    · exact Or.inr (Nat.le_trans hab.next_le h)
  · intro x hx hne
    rw [hbc.bytes x (Nat.lt_of_lt_of_le hx hab.next_le), hab.bytes x hx hne]
    rcases hab.data with h | h
    · rw [h]; exact hne
    · omega

theorem compact_spec {b : PoolSendBuffer} {h : Heap} (hok : b.Ok h) :
    (b.compact h).1.Ok (b.compact h).2 ∧ (b.compact h).1.m_offset = 0 ∧
      (b.compact h).1.content (b.compact h).2 = b.content h ∧
      Frame b (b.compact h).1 h (b.compact h).2 := by
  obtain ⟨ho, hs, hc, hd⟩ := hok
  unfold compact
  split
  · refine ⟨⟨Nat.zero_le _, ?_, hc, hd⟩, rfl, ?_, ⟨Nat.le_refl _, Or.inl rfl, ?_⟩⟩
    · show b.m_size - b.m_offset ≤ b.m_capacity
      omega
    · show slice ((h.setBlock b.m_data _).bytes b.m_data) 0 (b.m_size - b.m_offset - 0) = b.content h
      rw [Heap.setBlock_same, content, remaining, Nat.sub_zero, slice_put_slice]
    · intro x _ hne
      exact Heap.setBlock_other _ _ hne
  · next hoff =>
    exact ⟨⟨ho, hs, hc, hd⟩, by dsimp only; omega, rfl,
      ⟨Nat.le_refl _, Or.inl rfl, fun _ _ _ => rfl⟩⟩

theorem le_growCapacity : ∀ {n cap required c : Nat},
    growCapacity n cap required = some c → required ≤ c := by
  intro n
  induction n with
  | zero => intro cap required c h; exact absurd h (by simp [growCapacity])
  | succ n ih =>
    intro cap required c h
    rw [growCapacity] at h
    split at h
    · exact ih h
    · simp only [Option.some.injEq] at h
      omega

/-- Behind `grow` there is room, and the content is where it was or in a new block. -/
theorem grow_spec {b b' : PoolSendBuffer} {h h' : Heap} (hok : b.Ok h) (hoff : b.m_offset = 0)
    {len : Nat} (hlen : len ≤ 2 ^ 62) (hg : b.grow h len = some (b', h')) :
    b'.Ok h' ∧ b'.m_offset = 0 ∧ b'.m_size + len ≤ b'.m_capacity ∧
      b'.content h' = b.content h ∧ Frame b b' h h' := by
  have hreq : (b.m_size + len) % 2 ^ 64 = b.m_size + len := by
    have := hok.size_le
    have := hok.capacity_lt
    exact Nat.mod_eq_of_lt (by omega)
  simp only [grow, hreq] at hg
  split at hg
  · next hle =>
    simp only [Option.some.injEq, Prod.mk.injEq] at hg
    obtain ⟨rfl, rfl⟩ := hg
    exact ⟨hok, hoff, hle, rfl, ⟨Nat.le_refl _, Or.inl rfl, fun _ _ _ => rfl⟩⟩
  · cases hcap : growCapacity 65 b.m_capacity (b.m_size + len) with
    | none => rw [hcap] at hg; exact absurd hg (by simp)
    | some newCapacity =>
      rw [hcap] at hg
      dsimp only at hg
      have hroom := le_growCapacity hcap
      cases ha : h.allocate newCapacity with
      | none => rw [ha] at hg; exact absurd hg (by simp)
      | some p =>
        obtain ⟨d, h₁⟩ := p
        obtain ⟨hsz, rfl, hn, hb⟩ := Heap.allocate_eq ha
        rw [ha] at hg
        simp only [Option.some.injEq, Prod.mk.injEq] at hg
        obtain ⟨rfl, rfl⟩ := hg
        have hd := hok.data_lt
        have hne : h.next ≠ b.m_data := by omega
        refine ⟨⟨by simp [hoff], ?_, hsz, ?_⟩, hoff, hroom, ?_, ⟨?_, Or.inr (Nat.le_refl _), ?_⟩⟩
        · show b.m_size ≤ newCapacity
          omega
        · show h.next < h₁.next
          omega
        · show slice ((Heap.deallocate _ b.m_data b.m_capacity).bytes h.next) b.m_offset
            (b.m_size - b.m_offset) = b.content h
          rw [Heap.deallocate_other _ _ hne, Heap.setBlock_same, content, remaining, hoff,
            Nat.sub_zero, hb, slice_put_slice]
        · show h.next ≤ h₁.next
          omega
        · intro x hx hxne
          rw [Heap.deallocate_other _ _ hxne, Heap.setBlock_other _ _ (by omega), hb]

/-- **`append` puts its bytes behind the content** and leaves every other block alone. -/
theorem append_spec {b b' : PoolSendBuffer} {h h' : Heap} (hok : b.Ok h) {src : Bytes}
    (hlen : src.length ≤ 2 ^ 62) (ha : b.append h src = some (b', h')) :
    b'.Ok h' ∧ b'.content h' = b.content h ++ src ∧ Frame b b' h h' := by
  unfold append at ha
  split at ha
  · next h0 =>
    simp only [Option.some.injEq, Prod.mk.injEq] at ha
    obtain ⟨rfl, rfl⟩ := ha
    rw [List.length_eq_zero_iff.mp h0, List.append_nil]
    exact ⟨hok, rfl, ⟨Nat.le_refl _, Or.inl rfl, fun _ _ _ => rfl⟩⟩
  · cases he : b.ensureCapacityForAppend h src.length with
    | none => rw [he] at ha; exact absurd ha (by simp)
    | some p =>
      obtain ⟨b₁, h₁⟩ := p
      rw [he] at ha
      simp only [Option.some.injEq, Prod.mk.injEq] at ha
      obtain ⟨rfl, rfl⟩ := ha
      obtain ⟨hokc, hoffc, hcontc, hfrc⟩ := compact_spec hok
      obtain ⟨hok₁, hoff₁, hroom, hcont₁, hfr₁⟩ := grow_spec hokc hoffc hlen he
      have hcap := hok₁.capacity_lt
      have hmod : (b₁.m_size + src.length) % 2 ^ 64 = b₁.m_size + src.length :=
        Nat.mod_eq_of_lt (by omega)
      rw [hmod]
      refine ⟨⟨by simp [hoff₁], hroom, hok₁.capacity_lt, hok₁.data_lt⟩, ?_, ?_⟩
      · rw [← hcontc, ← hcont₁]
        simp only [content, remaining, hoff₁, Nat.sub_zero, Heap.setBlock_same]
        have := slice_put_append (h₁.bytes b₁.m_data) 0 b₁.m_size src
        simpa using this
      · have hfr := hfrc.trans hfr₁
        refine ⟨hfr.next_le, hfr.data, ?_⟩
        intro x hx hne
        have hx₁ : x ≠ b₁.m_data := by
          rcases hfr.data with h | h
          · rw [h]; exact hne
          · omega
        rw [Heap.setBlock_other _ _ hx₁]
        exact hfr.bytes x hx hne

/-! ## 4. `append` comes back -/

/-- The doubling ends, and does not get far beyond what it is for. -/
theorem growCapacity_isSome {required : Nat} (hreq : required < 2 ^ 62) : ∀ {n cap : Nat},
    required ≤ cap * 2 ^ n → cap < 2 ^ 63 →
    ∃ c, growCapacity (n + 1) cap required = some c ∧ c < 2 ^ 63 ∧ cap ≤ c := by
  intro n
  induction n with
  | zero =>
    intro cap hle hcap
    rw [growCapacity, if_neg (by omega)]
    exact ⟨cap, rfl, hcap, Nat.le_refl _⟩
  | succ n ih =>
    intro cap hle hcap
    rw [growCapacity]
    split
    · next hlt =>
      rw [Nat.mod_eq_of_lt (by omega)]
      have henough : required ≤ cap * 2 * 2 ^ n := by
        rw [Nat.mul_assoc, ← Nat.pow_succ']
        exact hle
      obtain ⟨c, hc, hc63, hcc⟩ := ih henough (by omega)
      exact ⟨c, hc, hc63, by omega⟩
    · exact ⟨cap, rfl, hcap, Nat.le_refl _⟩

theorem grow_isSome {b : PoolSendBuffer} {h : Heap} (hok : b.Ok h) (hpos : 0 < b.m_capacity)
    {len : Nat} (hlen : b.m_size + len < 2 ^ 62) : ∃ p, b.grow h len = some p := by
  have hreq : (b.m_size + len) % 2 ^ 64 = b.m_size + len := Nat.mod_eq_of_lt (by omega)
  simp only [grow, hreq]
  split
  · exact ⟨_, rfl⟩
  · have henough : b.m_size + len ≤ b.m_capacity * 2 ^ 64 := by omega
    obtain ⟨c, hc, hc63, -⟩ := growCapacity_isSome hlen henough hok.capacity_lt
    simp only [hc, Heap.allocate, if_neg (Nat.not_le.mpr hc63)]
    exact ⟨_, rfl⟩

theorem compact_size {b : PoolSendBuffer} {h : Heap} (hok : b.Ok h) :
    (b.compact h).1.m_size = b.remaining := by
  obtain ⟨-, hoff, hcont, -⟩ := compact_spec hok
  rw [← length_content b h, ← hcont, length_content, remaining, hoff, Nat.sub_zero]

/-- **`append` comes back** as long as there is less than `2 ^ 62` to hold. -/
theorem append_isSome {b : PoolSendBuffer} {h : Heap} (hok : b.Ok h) (hpos : 0 < b.m_capacity)
    {src : Bytes} (hlen : b.remaining + src.length < 2 ^ 62) : ∃ p, b.append h src = some p := by
  unfold append
  split
  · exact ⟨_, rfl⟩
  · have hokc := (compact_spec hok).1
    have hsize := compact_size hok
    have hposc : 0 < (b.compact h).1.m_capacity := by
      unfold compact
      split
      · exact hpos
      · exact hpos
    obtain ⟨p, hp⟩ := grow_isSome hokc hposc (show (b.compact h).1.m_size + src.length < 2 ^ 62 by omega)
    rw [ensureCapacityForAppend, hp]
    exact ⟨_, rfl⟩

end PoolSendBuffer

end EpollChat
