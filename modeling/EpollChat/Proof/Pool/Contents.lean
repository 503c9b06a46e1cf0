import EpollChat.Proof.Pool.Safety

/-!
# What an owner writes stays

The allocator keeps its lists in the free blocks themselves, so its own stores go into the same
memory as those of the owners. They never meet: a store of the allocator goes into a block that is
on a list, into a span that has not been handed out, or into the block that is being given back,
and each of these lies apart from every other live block. Large blocks, which come from `malloc`,
lie apart from everything else as well (`Placed`).

So a live block is as good as an array of its own. `contents_private` says that after any steps of
any threads its words are those it had before, changed by its owner's writes and nothing else. The
send buffers (`EpollChat.Buffer.Send`) take this for granted when they give every block its own
bytes.
-/

namespace EpollChat
namespace Pool

open Lib Machine

/-! ## 1. Two live blocks -/

/-- Everything that is live has a place of its own. -/
structure Placed (s : State) : Prop where
  safe : ∃ w, Safe s w
  large : ∀ b ∈ s.live, ∀ b' ∈ s.live, MAX_BYTES < b.size → MAX_BYTES < b'.size → b ≠ b' →
    b.range.Apart b'.range

/-- A small block lies inside what `mmap` has given out, and a large one apart from all of it. -/
theorem Safe.small_apart_large {s : State} {w : Nat → Option Slot} (hi : Safe s w) {b b' : Block}
    (hb : b ∈ s.live) (hb' : b' ∈ s.live) (hsmall : b.size ≤ MAX_BYTES)
    (hlarge : MAX_BYTES < b'.size) : b.range.Apart b'.range := by
  obtain ⟨r, hr, h₁, h₂⟩ := hi.blocks.inside (hi.small hb hsmall)
  have hap : b'.range.start + b'.range.bytes ≤ r.start ∨ r.start + r.bytes ≤ b'.range.start :=
    hi.large hb' hlarge r hr
  rw [Block.range_small hsmall]
  show b.addr + blockSize (getIndex b.size) ≤ b'.range.start ∨
    b'.range.start + b'.range.bytes ≤ b.addr
  dsimp only at h₂
  omega

theorem Safe.small_apart {s : State} {w : Nat → Option Slot} (hi : Safe s w) {b b' : Block}
    (hb : b ∈ s.live) (hb' : b' ∈ s.live) (hsmall : b.size ≤ MAX_BYTES)
    (hsmall' : b'.size ≤ MAX_BYTES) (hne : b ≠ b') : b.range.Apart b'.range := by
  have haddr : b.addr ≠ b'.addr := fun heq =>
    hne (List.inj_on_of_nodup_map hi.distinct
      (List.mem_filter.mpr ⟨hb, by simpa [isSmall] using hsmall⟩)
      (List.mem_filter.mpr ⟨hb', by simpa [isSmall] using hsmall'⟩) heq)
  have hap := hi.blocks.apart (hi.small hb hsmall) (hi.small hb' hsmall') haddr
  rw [Block.range_small hsmall, Block.range_small hsmall']
  exact hap

/-- **Different live blocks do not overlap**, small or large. -/
theorem Placed.apart {s : State} (hp : Placed s) {b b' : Block} (hb : b ∈ s.live) (hb' : b' ∈ s.live)
    (hne : b ≠ b') : b.range.Apart b'.range := by
  obtain ⟨w, hi⟩ := hp.safe
  rcases Nat.lt_or_ge MAX_BYTES b.size with hlarge | hsmall
  · rcases Nat.lt_or_ge MAX_BYTES b'.size with hlarge' | hsmall'
    · exact hp.large b hb b' hb' hlarge hlarge' hne
    · exact (hi.small_apart_large hb' hb hsmall' hlarge).symm
  · rcases Nat.lt_or_ge MAX_BYTES b'.size with hlarge' | hsmall'
    · exact hi.small_apart_large hb hb' hsmall hlarge'
    · exact hi.small_apart hb hb' hsmall hsmall' hne

/-! ## 2. Where the allocator stores -/

def Block.Has (b : Block) (a : Nat) : Prop := b.range.start ≤ a ∧ a < b.range.start + b.range.bytes

theorem Range.Apart.ne {b : Block} {r : Range} {a c : Nat} (hap : b.range.Apart r) (ha : b.Has a)
    (hc : r.start ≤ c) (hc' : c < r.start + r.bytes) : a ≠ c := by
  obtain ⟨h₁, h₂⟩ := ha
  have h : b.range.start + b.range.bytes ≤ r.start ∨ r.start + r.bytes ≤ b.range.start := hap
  omega

/-- A block that is not live lies apart from those that are. -/
theorem Safe.live_apart {s : State} {w : Nat → Option Slot} (hi : Safe s w) {b : Block} {c : Nat}
    {x : Slot} (hb : b ∈ s.live) (hc : w c = some x) (hx : x.place ≠ .live) :
    b.range.Apart (x.range c) := by
  rcases Nat.lt_or_ge MAX_BYTES b.size with hlarge | hsmall
  · obtain ⟨r, hr, h₁, h₂⟩ := hi.blocks.inside hc
    have hap : b.range.start + b.range.bytes ≤ r.start ∨ r.start + r.bytes ≤ b.range.start :=
      hi.large hb hlarge r hr
    show b.range.start + b.range.bytes ≤ c ∨ c + blockSize x.cls ≤ b.range.start
    omega
  · have hw := hi.small hb hsmall
    have hne : b.addr ≠ c := by
      rintro rfl
      rw [hw, Option.some.injEq] at hc
      exact hx (by rw [← hc])
    have hap := hi.blocks.apart hw hc hne
    rw [Block.range_small hsmall]
    exact hap

/-- So does a span that a thread is about to cut up. -/
theorem Safe.live_apart_span {s : State} {w : Nat → Option Slot} (hi : Safe s w) {b : Block} {t : Nat}
    {r : Range} (hb : b ∈ s.live) (hr : (s.threads t).span = some r) : b.range.Apart r := by
  obtain ⟨hmem, -, -, hap⟩ := (hi.threads t).span hr
  rcases Nat.lt_or_ge MAX_BYTES b.size with hlarge | hsmall
  · exact hi.large hb hlarge r hmem
  · have hsmall_apart := hap (hi.small hb hsmall)
    rw [Block.range_small hsmall]
    exact hsmall_apart

/-- And what `mmap` gives out. -/
theorem Safe.live_apart_fresh {s : State} {w : Nat → Option Slot} (hi : Safe s w) {b : Block}
    {r : Range} (hb : b ∈ s.live) (hfresh : s.mem.Fresh r)
    (hlarge : MAX_BYTES < b.size → b.range.Apart r) : b.range.Apart r := by
  rcases Nat.lt_or_ge MAX_BYTES b.size with hl | hsmall
  · exact hlarge hl
  · obtain ⟨r', hr', h₁, h₂⟩ := hi.blocks.inside (hi.small hb hsmall)
    have hap : r.start + r.bytes ≤ r'.start ∨ r'.start + r'.bytes ≤ r.start := hfresh.2.2 r' hr'
    rw [Block.range_small hsmall]
    show b.addr + blockSize (getIndex b.size) ≤ r.start ∨ r.start + r.bytes ≤ b.addr
    dsimp only at h₂
    omega

/-! ## 3. One step -/

/-- What a step does to the words of `b`. -/
def writtenBy (b : Block) (f : Nat → Nat) : Label → Nat → Nat
  | .write b' a v => if b' = b then Function.update f a v else f
  | _ => f

theorem allocate_mem {s s' : State} {tid size malloc : Nat} {es : List Event}
    (h : allocate s tid size malloc = some (s', es)) : s'.mem = s.mem := by
  unfold Pool.allocate at h
  dsimp only at h
  repeat' split at h
  all_goals
    simp only [hand, setCache, setPc, Option.some.injEq, Prod.mk.injEq, reduceCtorEq] at h
  all_goals
    obtain ⟨rfl, -⟩ := h
    rfl

/-- `fetchRange` takes a block off the central list: the word of that block is cleared. -/
theorem Safe.word_lockSection {s s' : State} {w : Nat → Option Slot} {tid size index a : Nat}
    {es : List Event} {b : Block} (hi : Safe s w) (hb : b ∈ s.live) (ha : b.Has a)
    (h : Pool.lockSection s tid size index = some (s', es)) : s'.mem.word a = s.mem.word a := by
  unfold Pool.lockSection at h
  split at h
  · simp only [Option.some.injEq, Prod.mk.injEq] at h
    obtain ⟨rfl, -⟩ := h
    rfl
  · split at h
    · exact absurd h (by simp)
    · dsimp only at h
      split at h
      · next hhead =>
        simp only [Option.some.injEq, Prod.mk.injEq] at h
        obtain ⟨rfl, -⟩ := h
        have hfree := hi.head none hhead
        show (takeHead s.central s.mem index (s.central.centralFreeList index)).2.word a = _
        rw [takeHead_mem, Memory.store_other]
        exact (hi.live_apart hb hfree (by simp)).ne ha (Nat.le_refl _)
          (Nat.lt_add_of_pos_right (blockSize_pos index))
      · simp only [Option.some.injEq, Prod.mk.injEq] at h
        obtain ⟨rfl, -⟩ := h
        rfl

/-- A new span comes zeroed. -/
theorem Safe.word_spanSection {s s' : State} {w : Nat → Option Slot} {tid size index a : Nat}
    {answer : Option Nat} {es : List Event} {b : Block} (hi : Safe s w) (hb : b ∈ s.live)
    (ha : b.Has a) (hpc : s.threads tid = .needSpan size index)
    (h : Pool.spanSection s tid size index answer = some (s', es)) : s'.mem.word a = s.mem.word a := by
  have hold := hi.threads tid
  rw [hpc] at hold
  obtain ⟨hsize, rfl, -⟩ := hold.call rfl
  unfold Pool.spanSection at h
  dsimp only at h
  split at h
  · next hlarge =>
    split at h
    · exact absurd h (by simp)
    · next p m start hspan =>
      have hnone : s.pages.lowerBound (spanPages (blockSize (getIndex size))) = none := by
        unfold PageCache.lowerBound
        rw [hi.noFree, List.find?_nil]
      have hmem : s'.mem = m := by
        split at h
        all_goals
          simp only [setPc, setLock, Option.some.injEq, Prod.mk.injEq] at h
          obtain ⟨rfl, -⟩ := h
          rfl
      rw [hmem]
      have hcases := allocateSpan_mmap hnone hspan
      rw [mmapSize_span (getIndex_lt hsize) start] at hcases
      rcases hcases with ⟨-, -, rfl, -⟩ | ⟨hans, -, hfresh, rfl, -⟩
      · rfl
      · refine if_neg fun hin => ?_
        have hap := hi.live_apart_fresh hb hfresh fun hl => hlarge start hans b hb hl
        exact hap.ne ha hin.1 hin.2 rfl
  · exact absurd h (by simp)

/-- Cutting up a span stores into the blocks of the span. -/
theorem Safe.word_carve {s : State} {w : Nat → Option Slot} {tid size index start a : Nat} {b : Block}
    (hi : Safe s w) (hb : b ∈ s.live) (ha : b.Has a) (hpc : s.threads tid = .gotSpan size index start) :
    (carveSection s tid size index start).1.mem.word a = s.mem.word a := by
  have hold := hi.threads tid
  rw [hpc] at hold
  obtain ⟨-, hpos, -, -⟩ := hold.span rfl
  obtain ⟨-, hempty⟩ := hold.lock rfl
  obtain ⟨c, m, hcarve⟩ : ∃ c m, Pool.carve s.central s.mem index start = (c, m) := ⟨_, _, rfl⟩
  obtain ⟨-, -, hword, -⟩ := carve_spec hcarve hpos hempty (hold.watched rfl)
  have hap : b.range.Apart (spanRange index start) :=
    hi.live_apart_span (t := tid) hb (by rw [hpc]; rfl)
  unfold carveSection
  rw [hcarve]
  refine hword a fun j hj => ?_
  obtain ⟨h₁, h₂⟩ := blockAt_inside start hj
  have := blockSize_pos index
  refine hap.ne ha h₁ ?_
  show blockAt start (blockSize index) j < start + (spanRange index start).bytes
  omega

/-- **A step changes the words of a live block only if its owner writes**, unless it gives the
    block back. -/
theorem Placed.word_step {s s' : State} {l : Label} {es : List Event} {b : Block} {a : Nat}
    (hp : Placed s) (hb : b ∈ s.live) (hkeep : ∀ tid, l ≠ .deallocate tid b) (ha : b.Has a)
    (h : step s l = some (s', es)) : s'.mem.word a = writtenBy b s.mem.word l a := by
  obtain ⟨w, hi⟩ := hp.safe
  cases l with
  | allocate tid size malloc =>
    simp only [Pool.step] at h
    split at h
    · rw [allocate_mem h]
      rfl
    · exact absurd h (by simp)
  | lock tid =>
    simp only [Pool.step] at h
    split at h
    · exact hi.word_lockSection hb ha h
    · exact absurd h (by simp)
  | span tid answer =>
    simp only [Pool.step] at h
    split at h
    · next hpc => exact hi.word_spanSection hb ha hpc h
    · exact absurd h (by simp)
  | carve tid =>
    simp only [Pool.step] at h
    split at h
    · next hpc =>
      have hword := hi.word_carve hb ha hpc
      rw [Option.some.inj h] at hword
      exact hword
    · exact absurd h (by simp)
  | finish tid rounds =>
    simp only [Pool.step] at h
    split at h
    · unfold Pool.finish at h
      dsimp only at h
      split at h
      · exact absurd h (by simp)
      · simp only [hand, setCache, setPc, Option.some.injEq, Prod.mk.injEq] at h
        obtain ⟨rfl, -⟩ := h
        rfl
    · exact absurd h (by simp)
  | deallocate tid b' =>
    simp only [Pool.step] at h
    split at h
    · split at h
      · next hb' =>
        have hne : b ≠ b' := by
          rintro rfl
          exact hkeep tid rfl
        have hap := hp.apart hb hb' hne
        unfold Pool.deallocate at h
        dsimp only at h
        split at h
        all_goals
          simp only [setCache, Option.some.injEq, Prod.mk.injEq] at h
          obtain ⟨rfl, -⟩ := h
        · rfl
        · next hsmall =>
          rw [Block.range_small (Nat.not_lt.mp hsmall)] at hap
          exact Memory.store_other (hap.ne ha (Nat.le_refl _)
            (Nat.lt_add_of_pos_right (blockSize_pos _))) ..
      · exact absurd h (by simp)
    · exact absurd h (by simp)
  | write b' c v =>
    simp only [Pool.step] at h
    split at h
    · next hw =>
      obtain ⟨hb', hc, hc'⟩ := hw
      simp only [Option.some.injEq, Prod.mk.injEq] at h
      obtain ⟨rfl, -⟩ := h
      rw [writtenBy]
      by_cases heq : b' = b
      · rw [if_pos heq]
        rfl
      · rw [if_neg heq]
        exact Memory.store_other ((hp.apart hb hb' (Ne.symm heq)).ne ha hc hc') ..
    · exact absurd h (by simp)

/-! ## 4. A run -/

/-- A step that gives nothing back adds at most one block; a large one is `malloc`'s. -/
theorem Safe.live_step {s s' : State} {w : Nat → Option Slot} {l : Label} {es : List Event}
    (hi : Safe s w) (h : Pool.step s l = some (s', es)) :
    s'.live = s.live ∨ (∃ b, s'.live = b :: s.live ∧ (MAX_BYTES < b.size → MallocFresh s b)) ∨
      ∃ tid b, l = .deallocate tid b ∧ s'.live = s.live.erase b := by
  cases l with
  | allocate tid size malloc =>
    simp only [Pool.step] at h
    split at h
    · unfold Pool.allocate at h
      simp only [large_iff, getIndex_zero] at h
      split at h
      · split at h
        · simp only [Option.some.injEq, Prod.mk.injEq] at h
          obtain ⟨rfl, -⟩ := h
          exact Or.inl rfl
        · split at h
          · next hfresh =>
            simp only [hand, Option.some.injEq, Prod.mk.injEq] at h
            obtain ⟨rfl, -⟩ := h
            exact Or.inr (Or.inl ⟨_, rfl, fun _ => hfresh⟩)
          · exact absurd h (by simp)
      · next hsmall =>
        split at h
        all_goals
          simp only [hand, setCache, setPc, Option.some.injEq, Prod.mk.injEq] at h
          obtain ⟨rfl, -⟩ := h
        · exact Or.inr (Or.inl ⟨_, rfl, fun hlarge => absurd hlarge hsmall⟩)
        · exact Or.inl rfl
    · exact absurd h (by simp)
  | lock tid =>
    simp only [Pool.step] at h
    split at h
    · unfold Pool.lockSection at h
      dsimp only at h
      repeat' split at h
      all_goals
        simp only [setPc, setLock, Option.some.injEq, Prod.mk.injEq, reduceCtorEq] at h
      all_goals
        obtain ⟨rfl, -⟩ := h
        exact Or.inl rfl
    · exact absurd h (by simp)
  | span tid answer =>
    simp only [Pool.step] at h
    split at h
    · unfold Pool.spanSection at h
      dsimp only at h
      repeat' split at h
      all_goals
        simp only [setPc, setLock, Option.some.injEq, Prod.mk.injEq, reduceCtorEq] at h
      all_goals
        obtain ⟨rfl, -⟩ := h
        exact Or.inl rfl
    · exact absurd h (by simp)
  | carve tid =>
    simp only [Pool.step] at h
    split at h
    · simp only [carveSection, setPc, setLock, Option.some.injEq, Prod.mk.injEq] at h
      obtain ⟨rfl, -⟩ := h
      exact Or.inl rfl
    · exact absurd h (by simp)
  | finish tid rounds =>
    simp only [Pool.step] at h
    split at h
    · next size index start hpc =>
      have hold := hi.threads tid
      rw [hpc] at hold
      obtain ⟨hsize, -, -⟩ := hold.call rfl
      unfold Pool.finish at h
      dsimp only at h
      split at h
      · exact absurd h (by simp)
      · simp only [hand, setCache, setPc, Option.some.injEq, Prod.mk.injEq] at h
        obtain ⟨rfl, -⟩ := h
        exact Or.inr (Or.inl ⟨_, rfl, fun hlarge => absurd hlarge (Nat.not_lt.mpr hsize)⟩)
    · exact absurd h (by simp)
  | deallocate tid b =>
    simp only [Pool.step] at h
    split at h
    · split at h
      · unfold Pool.deallocate at h
        dsimp only at h
        split at h
        all_goals
          simp only [setCache, Option.some.injEq, Prod.mk.injEq] at h
          obtain ⟨rfl, -⟩ := h
          exact Or.inr (Or.inr ⟨tid, b, rfl, rfl⟩)
      · exact absurd h (by simp)
    · exact absurd h (by simp)
  | write b a v =>
    simp only [Pool.step] at h
    split at h
    · simp only [Option.some.injEq, Prod.mk.injEq] at h
      obtain ⟨rfl, -⟩ := h
      exact Or.inl rfl
    · exact absurd h (by simp)

theorem Placed.step {s s' : State} {l : Label} {es : List Event} (hp : Placed s)
    (h : Pool.step s l = some (s', es)) : Placed s' := by
  obtain ⟨w, hi⟩ := hp.safe
  refine ⟨hi.step h, fun b hb b' hb' hlarge hlarge' hne => ?_⟩
  rcases hi.live_step h with hlive | ⟨b₀, hlive, hfresh⟩ | ⟨-, b₀, -, hlive⟩
  · rw [hlive] at hb hb'
    exact hp.large b hb b' hb' hlarge hlarge' hne
  · rw [hlive] at hb hb'
    rcases List.mem_cons.mp hb with rfl | hold
    · rcases List.mem_cons.mp hb' with rfl | hold'
      · exact absurd rfl hne
      · exact (hfresh hlarge).2.2 b' hold' hlarge'
    · rcases List.mem_cons.mp hb' with rfl | hold'
      · exact ((hfresh hlarge').2.2 b hold hlarge).symm
      · exact hp.large b hold b' hold' hlarge hlarge' hne
  · rw [hlive] at hb hb'
    exact hp.large b (List.mem_of_mem_erase hb) b' (List.mem_of_mem_erase hb') hlarge hlarge' hne

/-- Only `deallocate` of the block itself ends its life. -/
theorem Placed.live_step {s s' : State} {l : Label} {es : List Event} {b : Block} (hp : Placed s)
    (hb : b ∈ s.live) (hkeep : ∀ tid, l ≠ .deallocate tid b) (h : Pool.step s l = some (s', es)) :
    b ∈ s'.live := by
  obtain ⟨w, hi⟩ := hp.safe
  rcases hi.live_step h with hlive | ⟨b₀, hlive, -⟩ | ⟨tid, b₀, rfl, hlive⟩
  · rw [hlive]
    exact hb
  · rw [hlive]
    exact List.mem_cons_of_mem _ hb
  · rw [hlive]
    refine (List.mem_erase_of_ne ?_).mpr hb
    rintro rfl
    exact hkeep tid rfl

theorem placed_run {ls : List Label} {s : State} {τ : List Event}
    (hr : run Pool.step {} ls = some (s, τ)) : Placed s :=
  run_inv_state Placed (fun hp h => hp.step h)
    ⟨⟨_, Safe.start⟩, fun _ hb => absurd hb List.not_mem_nil⟩ hr

/-- What the owner of `b` has written over `f` in the course of a run. -/
def written (b : Block) (f : Nat → Nat) (ls : List Label) : Nat → Nat := ls.foldl (writtenBy b) f

theorem writtenBy_congr {b : Block} {f g : Nat → Nat} (h : ∀ a, b.Has a → f a = g a) (l : Label) :
    ∀ a, b.Has a → writtenBy b f l a = writtenBy b g l a := by
  intro a ha
  cases l with
  | write b' c v =>
    simp only [writtenBy]
    split
    · by_cases hac : a = c
      · rw [hac, Function.update_self, Function.update_self]
      · rw [Function.update_of_ne hac, Function.update_of_ne hac]
        exact h a ha
    · exact h a ha
  | _ => exact h a ha

theorem written_congr {b : Block} : ∀ {ls : List Label} {f g : Nat → Nat}, (∀ a, b.Has a → f a = g a) →
    ∀ a, b.Has a → written b f ls a = written b g ls a := by
  intro ls
  induction ls with
  | nil => exact fun h => h
  | cons l ls ih => exact fun h => ih (writtenBy_congr h l)

/-- **What an owner writes stays.** Take a live block at any time of any run, and let the threads go
    on in any way in which nobody gives the block back: allocating, freeing and writing into other
    blocks, fetching from the central cache, cutting up new spans. The block is still live, and its
    words are those it had, changed by what was written into this very block and by nothing else. -/
theorem contents_private {ls ls' : List Label} {s s' : State} {τ τ' : List Event} {b : Block}
    (hr : run step {} ls = some (s, τ)) (hr' : run step s ls' = some (s', τ')) (hb : b ∈ s.live)
    (hkeep : ∀ tid, .deallocate tid b ∉ ls') :
    b ∈ s'.live ∧ ∀ a, b.Has a → s'.mem.word a = written b s.mem.word ls' a := by
  have hp := placed_run hr
  clear hr
  induction ls' generalizing s τ' with
  | nil =>
    simp only [run, Option.some.injEq, Prod.mk.injEq] at hr'
    obtain ⟨rfl, rfl⟩ := hr'
    exact ⟨hb, fun a _ => rfl⟩
  | cons l ls' ih =>
    obtain ⟨s₁, es, τ₁, hs, hr₁, -⟩ := run_cons hr'
    have hl : ∀ tid, l ≠ .deallocate tid b := by
      rintro tid rfl
      exact hkeep tid List.mem_cons_self
    obtain ⟨hlive, hword⟩ := ih hr₁ (hp.live_step hb hl hs)
      (fun tid h => hkeep tid (List.mem_cons_of_mem _ h)) (hp.step hs)
    refine ⟨hlive, fun a ha => (hword a ha).trans ?_⟩
    exact written_congr (fun c hc => hp.word_step hb hl hc hs) a ha

/-- Two threads have a block each of a span of two. One writes into its own, the other gives its
    block back, takes it again and writes there. -/
def neighbours : List Label :=
  [.write ⟨4096, 16384⟩ 4096 7, .deallocate 1 ⟨20480, 16380⟩, .allocate 1 16384 0,
    .write ⟨20480, 16384⟩ 20480 9]

theorem contents_private_neighbours : ∃ s s' τ τ',
    run step {} [.allocate 0 16384 0, .lock 0, .span 0 (some 4096), .carve 0, .finish 0 0,
      .allocate 1 16380 0, .lock 1, .finish 1 0] = some (s, τ) ∧
    run step s neighbours = some (s', τ') ∧ s'.mem.word 20480 = 9 ∧
    ⟨4096, 16384⟩ ∈ s'.live ∧ s'.mem.word 4096 = 7 := by
  have hlive : ((run step {} [.allocate 0 16384 0, .lock 0, .span 0 (some 4096), .carve 0, .finish 0 0,
      .allocate 1 16380 0, .lock 1, .finish 1 0]).bind fun p =>
        (run step p.1 neighbours).map fun q => (decide (⟨4096, 16384⟩ ∈ p.1.live), q.1.mem.word 20480)) =
      some (true, 9) := by decide +kernel
  obtain ⟨⟨s, τ⟩, hr, hlive⟩ := Option.bind_eq_some_iff.mp hlive
  obtain ⟨⟨s', τ'⟩, hr', hlive⟩ := Option.map_eq_some_iff.mp hlive
  obtain ⟨hb, hnine⟩ := Prod.mk.inj hlive
  have hown := contents_private hr hr' (of_decide_eq_true hb) (by simp [neighbours])
  refine ⟨s, s', τ, τ', hr, hr', hnine, hown.1, (hown.2 4096 ?_).trans ?_⟩
  · exact ⟨Nat.le_refl _, by decide⟩
  · simp [written, neighbours, writtenBy]

end Pool
end EpollChat
