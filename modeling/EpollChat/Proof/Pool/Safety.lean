import EpollChat.Proof.Pool.Blocks

/-!
# Live blocks are safe

Every step moves one block of the table to another place, or (`carve`) adds the blocks of a
span; the other threads keep what they rely on because the words that change lie in a block
that is not theirs. The section that takes most care is the last one of `fetchRange`: it cuts
up a span while other threads cut up theirs.
-/

namespace EpollChat
namespace Pool

open Lib Machine

/-! ## 1. Steps on the thread's own list -/

/-- Every other thread keeps what it relies on; this one is idle. -/
theorem threads_of_idle {s s' : State} {w' : Nat → Option Slot} {tid : Nat}
    (hidle : s.threads tid = .idle) (hth : s'.threads = s.threads)
    (h : ∀ t, t ≠ tid → PcSafe s' w' t (s.threads t)) : ∀ t, PcSafe s' w' t (s'.threads t) := by
  intro t
  rw [hth]
  by_cases ht : t = tid
  · rw [ht, hidle]
    exact PcSafe.idle ..
  · exact h t ht

theorem setCache_other {t tid : Nat} (h : t ≠ tid) (s : State) (c : ThreadCache) :
    (setCache s tid c).caches t = s.caches t := Function.update_of_ne h ..

/-- `allocate` finds a block in the thread's own list. -/
theorem Safe.takeOwn {s : State} {w : Nat → Option Slot} (hi : Safe s w) {tid size n : Nat}
    (hidle : s.threads tid = .idle) (hsize : size ≤ MAX_BYTES)
    (hptr : (s.caches tid).freeList (getIndex size) ≠ 0) :
    Safe (hand (setCache s tid ((s.caches tid).set (getIndex size)
        (s.mem.word ((s.caches tid).freeList (getIndex size))) n)) tid
        ⟨(s.caches tid).freeList (getIndex size), size⟩).1
      (moveTo w ((s.caches tid).freeList (getIndex size)) (getIndex size) .live) := by
  have ha : w ((s.caches tid).freeList (getIndex size)) = some ⟨getIndex size, .free (some tid)⟩ :=
    hi.head (some tid) hptr
  obtain ⟨hsmall, hdist⟩ := hi.live_hand ha (by simp)
  refine ⟨hi.blocks.moveTo ha .live, ?_, hsmall, hdist, ?_, ?_, hi.apart, hi.noFree⟩
  · rw [onList_moveTo]
    have h := hi.lists.pop (k := (some tid, getIndex size)) hptr fun _ _ _ _ => rfl
    rw [← heads_setCache s tid (getIndex size) _ n] at h
    exact h
  · intro b hb hbig
    rcases List.mem_cons.mp hb with rfl | hb
    · exact absurd hbig (Nat.not_lt.mpr hsize)
    · exact hi.large hb hbig
  · refine threads_of_idle hidle rfl fun t ht => ?_
    refine (hi.threads t).move .live hi.blocks ha (by simp) ?_ (fun _ => ⟨rfl, rfl⟩) rfl (fun _ _ => rfl)
    exact congrArg ThreadCache.freeList (setCache_other ht s _)

/-- `deallocate` of a block of the pool. -/
theorem Safe.giveOwn {s : State} {w : Nat → Option Slot} (hi : Safe s w) {tid n : Nat} {b : Block}
    (hidle : s.threads tid = .idle) (hb : b ∈ s.live) (hsize : b.size ≤ MAX_BYTES) :
    Safe (setCache { s with
        live := s.live.erase b
        mem := s.mem.store b.addr ((s.caches tid).freeList (getIndex b.size)) } tid
        ((s.caches tid).set (getIndex b.size) b.addr n))
      (moveTo w b.addr (getIndex b.size) (.free (some tid))) := by
  have ha := hi.small hb hsize
  have hoff : onList w b.addr = none := by
    unfold onList
    rw [ha]
    rfl
  obtain ⟨hdist, hne⟩ := hi.live_erase hb
  refine ⟨hi.blocks.moveTo ha _, ?_, ?_, hdist, ?_, ?_, hi.apart, hi.noFree⟩
  · rw [onList_moveTo]
    have hlink : (s.mem.store b.addr ((s.caches tid).freeList (getIndex b.size))).word b.addr
        = heads s.central s.caches (some tid, getIndex b.size) := Memory.store_same ..
    have h := hi.lists.push (hi.blocks.pos ha) hoff hlink fun c j hc => ?_
    · rw [← heads_setCache s tid (getIndex b.size) b.addr n] at h
      exact h
    · have hcb : c ≠ b.addr := by
        rintro rfl
        rw [hoff] at hc
        exact absurd hc (by simp)
      exact Memory.store_other hcb ..
  · intro b' hb' hs'
    rw [moveTo_other (hne hb' hs' hsize)]
    exact hi.small (List.mem_of_mem_erase hb') hs'
  · exact fun hb' => hi.large (List.mem_of_mem_erase hb')
  · refine threads_of_idle hidle rfl fun t ht => ?_
    refine (hi.threads t).move _ hi.blocks ha (by simp) ?_ (fun _ => ⟨rfl, rfl⟩) rfl fun c hc => ?_
    · exact congrArg ThreadCache.freeList (setCache_other ht _ _)
    · have hcb : c ≠ b.addr := by
        rintro rfl
        exact hc (Nat.le_refl _) (Nat.lt_add_of_pos_right (blockSize_pos _))
      exact Memory.store_other hcb ..

/-- `free` of a block of `malloc`. -/
theorem Safe.giveLarge {s : State} {w : Nat → Option Slot} (hi : Safe s w) {b : Block}
    (hb : b ∈ s.live) : Safe { s with live := s.live.erase b } w := by
  obtain ⟨hdist, -⟩ := hi.live_erase hb
  refine ⟨hi.blocks, hi.lists, fun h => hi.small (List.mem_of_mem_erase h), hdist,
    fun h => hi.large (List.mem_of_mem_erase h), fun t => ?_, hi.apart, hi.noFree⟩
  have h := hi.threads t
  exact ⟨h.call, h.lock, h.span, h.hand, h.watched⟩

theorem Safe.takeLarge {s : State} {w : Nat → Option Slot} (hi : Safe s w) {b : Block}
    (hbig : MAX_BYTES < b.size) (hap : ∀ r ∈ s.mem.regions, b.range.Apart r) :
    Safe { s with live := b :: s.live } w := by
  have hbs : ¬ b.size ≤ MAX_BYTES := Nat.not_le.mpr hbig
  refine ⟨hi.blocks, hi.lists, ?_, ?_, ?_, fun t => ?_, hi.apart, hi.noFree⟩
  · intro b' hb' hs
    rcases List.mem_cons.mp hb' with rfl | hb'
    · exact absurd hs hbs
    · exact hi.small hb' hs
  · rw [List.filter_cons_of_neg (by simpa [isSmall] using hbig)]
    exact hi.distinct
  · intro b' hb' hs
    rcases List.mem_cons.mp hb' with rfl | hb'
    · exact hap
    · exact hi.large hb' hs
  · have h := hi.threads t
    exact ⟨h.call, h.lock, h.span, h.hand, h.watched⟩

/-! ## 2. What the owners write -/

/-- Into a block of the pool. -/
theorem Safe.writeSmall {s : State} {w : Nat → Option Slot} (hi : Safe s w) {b : Block} {a : Nat}
    (v : Nat) (hb : b ∈ s.live) (hsize : b.size ≤ MAX_BYTES) (ha : b.addr ≤ a)
    (ha' : a < b.addr + blockSize (getIndex b.size)) : Safe { s with mem := s.mem.store a v } w := by
  have hw := hi.small hb hsize
  refine ⟨hi.blocks, ?_, hi.small, hi.distinct, hi.large, fun t => ?_, hi.apart, hi.noFree⟩
  · refine hi.lists.frame fun c k hc => Memory.store_other ?_ ..
    -- a block on a list is not live
    have hfree := onList_eq_some.mp hc
    have hne : c ≠ b.addr := by
      rintro rfl
      rw [hw] at hfree
      exact absurd hfree (by simp)
    exact hi.blocks.start_ne hfree hw hne ha ha'
  · have hsame : moveTo w b.addr (getIndex b.size) .live = w := by
      unfold moveTo
      rw [← hw, Function.update_eq_self]
    rw [← hsame]
    refine (hi.threads t).move _ hi.blocks hw (by simp) rfl (fun _ => ⟨rfl, rfl⟩) rfl fun c hc => ?_
    have hne : c ≠ a := by
      rintro rfl
      exact hc ha ha'
    exact Memory.store_other hne ..

/-- Into a block of `malloc`. -/
theorem Safe.writeLarge {s : State} {w : Nat → Option Slot} (hi : Safe s w) {b : Block} {a : Nat}
    (v : Nat) (hb : b ∈ s.live) (hbig : MAX_BYTES < b.size) (ha : b.addr ≤ a)
    (ha' : a < b.addr + b.size) : Safe { s with mem := s.mem.store a v } w := by
  have hout : ∀ r ∈ s.mem.regions, r.start ≤ a → ¬ a < r.start + r.bytes := by
    intro r hr h₁ h₂
    have hap : b.addr + b.range.bytes ≤ r.start ∨ r.start + r.bytes ≤ b.addr := hi.large hb hbig r hr
    have hbytes : b.range.bytes = b.size := if_neg (Nat.not_le.mpr hbig)
    rw [hbytes] at hap
    omega
  have hstart : ∀ {c x}, w c = some x → c ≠ a := by
    rintro c x hc rfl
    obtain ⟨r, hr, h₁, h₂⟩ := hi.blocks.inside hc
    have := blockSize_pos x.cls
    exact hout r hr h₁ (by omega)
  refine ⟨hi.blocks, ?_, hi.small, hi.distinct, hi.large, fun t => ?_, hi.apart, hi.noFree⟩
  · exact hi.lists.frame fun c k hc => Memory.store_other (hstart (onList_eq_some.mp hc)) ..
  · have h := hi.threads t
    refine ⟨h.call, h.lock, h.span, h.hand, fun {c} hc => ?_⟩
    have hne : c ≠ a := by
      rcases Pc.watched_cases hc with ⟨r, hr, rfl, hpos⟩ | ⟨index, hh⟩
      · rintro rfl
        exact hout r (h.span hr).1 (Nat.le_refl _) (Nat.lt_add_of_pos_right hpos)
      · exact hstart (h.hand hh)
    exact (Memory.store_other hne ..).trans (h.watched hc)

/-! ## 3. Steps of `fetchRange` -/

theorem threads_setPc {s s' : State} {w' : Nat → Option Slot} {tid : Nat} {pc : Pc}
    (hth : s'.threads = Function.update s.threads tid pc) (hpc : PcSafe s' w' tid pc)
    (h : ∀ t, t ≠ tid → PcSafe s' w' t (s.threads t)) : ∀ t, PcSafe s' w' t (s'.threads t) := by
  intro t
  rw [hth]
  by_cases ht : t = tid
  · rw [ht, Function.update_self]
    exact hpc
  · rw [Function.update_of_ne ht]
    exact h t ht

theorem apart_setPc {s s' : State} {tid : Nat} {pc : Pc}
    (hth : s'.threads = Function.update s.threads tid pc)
    (hap : ∀ {t t'}, t ≠ t' → PcApart (s.threads t) (s.threads t'))
    (hpc : ∀ t, t ≠ tid → PcApart pc (s.threads t)) {t t' : Nat} (hne : t ≠ t') :
    PcApart (s'.threads t) (s'.threads t') := by
  rw [hth]
  by_cases ht : t = tid
  · subst ht
    rw [Function.update_self, Function.update_of_ne hne.symm]
    exact hpc t' hne.symm
  · rw [Function.update_of_ne ht]
    by_cases ht' : t' = tid
    · subst ht'
      rw [Function.update_self]
      exact (hpc t ht).symm
    · rw [Function.update_of_ne ht']
      exact hap hne

/-- A thread that holds no lock is in nobody's way. -/
theorem PcApart.of_none {pc pc' : Pc} (hh : pc.holds = none) (hs : pc.span = none) : PcApart pc pc' :=
  ⟨fun h => absurd h (by rw [hh]; simp), fun h => absurd h (by rw [hs]; simp)⟩

theorem Safe.wantLock {s : State} {w : Nat → Option Slot} (hi : Safe s w) {tid size : Nat}
    (hsize : size ≤ MAX_BYTES) (hptr : (s.caches tid).freeList (getIndex size) = 0) :
    Safe (setPc s tid (.wantLock size (getIndex size))) w := by
  refine ⟨hi.blocks, hi.lists, hi.small, hi.distinct, hi.large, ?_,
    apart_setPc rfl hi.apart fun t _ => PcApart.of_none rfl rfl, hi.noFree⟩
  refine threads_setPc rfl ⟨?_, ?_, ?_, ?_, ?_⟩ fun t _ => ?_
  · intro size' index h
    simp only [Pc.call, Option.some.injEq, Prod.mk.injEq] at h
    obtain ⟨rfl, rfl⟩ := h
    exact ⟨hsize, rfl, hptr⟩
  · exact fun h => absurd h (by simp [Pc.holds])
  · exact fun h => absurd h (by simp [Pc.span])
  · exact fun h => absurd h (by simp [Pc.hand])
  · exact fun h => absurd h (by simp [Pc.watched])
  · have h := hi.threads t
    exact ⟨h.call, h.lock, h.span, h.hand, h.watched⟩

/-- The central list is empty: the thread keeps the lock. -/
theorem Safe.needSpan {s : State} {w : Nat → Option Slot} (hi : Safe s w) {tid size index : Nat}
    (hpc : s.threads tid = .wantLock size index) (hfree : s.locks index = false)
    (hempty : s.central.centralFreeList index = 0) :
    Safe (setPc (setLock s index true) tid (.needSpan size index)) w := by
  have hold := hi.threads tid
  rw [hpc] at hold
  have hnot : ∀ {t i}, (s.threads t).holds = some i → i ≠ index := by
    rintro t i h rfl
    rw [((hi.threads t).lock h).1] at hfree
    exact absurd hfree (by simp)
  refine ⟨hi.blocks, hi.lists, hi.small, hi.distinct, hi.large, ?_, apart_setPc rfl hi.apart ?_,
    hi.noFree⟩
  · refine threads_setPc rfl ⟨hold.call, ?_, ?_, ?_, ?_⟩ fun t _ => ?_
    · intro i h
      obtain rfl : index = i := Option.some.inj h
      exact ⟨Function.update_self .., hempty⟩
    · exact fun h => absurd h (by simp [Pc.span])
    · exact fun h => absurd h (by simp [Pc.hand])
    · exact fun h => absurd h (by simp [Pc.watched])
    · have h := hi.threads t
      refine ⟨h.call, fun {i} hh => ⟨?_, (h.lock hh).2⟩, h.span, h.hand, h.watched⟩
      show Function.update s.locks index true i = true
      rw [Function.update_of_ne (hnot hh)]
      exact (h.lock hh).1
  · intro t _
    refine ⟨fun h h' => ?_, fun h => absurd h (by simp [Pc.span])⟩
    obtain rfl := Option.some.inj h
    exact hnot h' rfl

/-- The central list is not: its first block is taken. -/
theorem Safe.takeCentral {s : State} {w : Nat → Option Slot} (hi : Safe s w) {tid size index : Nat}
    (hpc : s.threads tid = .wantLock size index) (hfree : s.locks index = false)
    (hhead : s.central.centralFreeList index ≠ 0) :
    Safe (setPc { s with
        central := (takeHead s.central s.mem index (s.central.centralFreeList index)).1
        mem := (takeHead s.central s.mem index (s.central.centralFreeList index)).2 } tid
        (.gotRange size index (s.central.centralFreeList index)))
      (moveTo w (s.central.centralFreeList index) index (.inHand tid)) := by
  have ha : w (s.central.centralFreeList index) = some ⟨index, .free none⟩ := hi.head none hhead
  have hold := hi.threads tid
  rw [hpc] at hold
  have hmem := takeHead_mem s.central s.mem index (s.central.centralFreeList index)
  have hlist := takeHead_centralFreeList s.central s.mem index (s.central.centralFreeList index)
  refine ⟨?_, ?_, ?_, hi.distinct, ?_, ?_, apart_setPc rfl hi.apart fun t _ => PcApart.of_none rfl rfl,
    hi.noFree⟩
  · dsimp only [setPc]
    rw [hmem]
    exact hi.blocks.moveTo ha _
  · dsimp only [setPc]
    rw [onList_moveTo, hmem, heads_central hlist]
    refine hi.lists.pop (k := (none, index)) hhead ?_
    exact fun c j _ hc => Memory.store_other hc ..
  · intro b hb hs
    have hw := hi.small hb hs
    rw [moveTo_other]
    · exact hw
    · intro heq
      rw [heq, ha] at hw
      exact absurd hw (by simp)
  · dsimp only [setPc]
    rw [hmem]
    exact hi.large
  · refine threads_setPc rfl ⟨hold.call, ?_, ?_, ?_, ?_⟩ fun t ht => ?_
    · exact fun h => absurd h (by simp [Pc.holds])
    · exact fun h => absurd h (by simp [Pc.span])
    · intro i a h
      simp only [Pc.hand, Option.some.injEq, Prod.mk.injEq] at h
      obtain ⟨rfl, rfl⟩ := h
      exact moveTo_same ..
    · intro a h
      obtain rfl := Option.some.inj h
      dsimp only [setPc]
      rw [hmem]
      exact Memory.store_same ..
    · refine (hi.threads t).move _ hi.blocks ha (by simp) rfl (fun {i} hh => ⟨rfl, ?_⟩) ?_ fun c hc => ?_
      · have hne : i ≠ index := by
          rintro rfl
          rw [((hi.threads t).lock hh).1] at hfree
          exact absurd hfree (by simp)
        dsimp only [setPc]
        rw [hlist, Function.update_of_ne hne]
      · dsimp only [setPc]
        rw [hmem]
        rfl
      · have hne : c ≠ s.central.centralFreeList index := by
          rintro rfl
          exact hc (Nat.le_refl _) (Nat.lt_add_of_pos_right (blockSize_pos _))
        dsimp only [setPc]
        rw [hmem]
        exact Memory.store_other hne ..

/-- The end of `fetchFromCentralCache`. Nothing is behind the block. -/
theorem Safe.finish {s : State} {w : Nat → Option Slot} (hi : Safe s w) {tid size index start n : Nat}
    (hpc : s.threads tid = .gotRange size index start) :
    Safe (hand (setPc (setCache s tid ((s.caches tid).set index (s.mem.word start) n)) tid .idle) tid
        ⟨start, size⟩).1
      (moveTo w start index .live) := by
  have hold := hi.threads tid
  rw [hpc] at hold
  obtain ⟨hsize, rfl, hptr⟩ := hold.call rfl
  have ha := hold.hand rfl
  have hnull := hold.watched rfl
  obtain ⟨hsmall, hdist⟩ := hi.live_hand ha (by simp)
  refine ⟨hi.blocks.moveTo ha _, ?_, hsmall, hdist, ?_, ?_,
    apart_setPc rfl hi.apart fun t _ => PcApart.of_none rfl rfl, hi.noFree⟩
  · -- the thread's list was empty and stays so
    have hheads : heads s.central
        (setCache s tid ((s.caches tid).set (getIndex size) (s.mem.word start) n)).caches
        = heads s.central s.caches := by
      have hptr' : heads s.central s.caches (some tid, getIndex size) = 0 := hptr
      rw [heads_setCache, hnull, ← hptr', Function.update_eq_self]
    have hoff : onList w start = none := by
      unfold onList
      rw [ha]
      rfl
    rw [onList_moveTo, show Slot.list ⟨getIndex size, .live⟩ = onList w start from hoff.symm,
      Function.update_eq_self]
    have h := hi.lists
    rw [← hheads] at h
    exact h
  · intro b hb hbig
    rcases List.mem_cons.mp hb with rfl | hb
    · exact absurd hbig (Nat.not_lt.mpr hsize)
    · exact hi.large hb hbig
  · refine threads_setPc rfl (PcSafe.idle ..) fun t ht => ?_
    refine (hi.threads t).move _ hi.blocks ha ?_ ?_ (fun _ => ⟨rfl, rfl⟩) rfl (fun _ _ => rfl)
    · exact fun h => ht (Place.inHand.inj h).symm
    · exact congrArg ThreadCache.freeList (setCache_other ht s _)

/-! ## 4. A new span -/

/-- With a bucket of the size or a larger one, a span comes from it. -/
theorem allocateSpan_take {p p' : PageCache} {m m' : Memory} {numPages a : Nat} {answer : Option Nat}
    {e : Nat × Nat} (hlb : p.lowerBound numPages = some e)
    (h : p.allocateSpan m numPages answer = some (p', m', a)) :
    m' = m ∧ p.takeSpan numPages e.1 e.2 = some (p', a) := by
  unfold PageCache.allocateSpan at h
  rw [hlb] at h
  obtain ⟨⟨p₁, a₁⟩, htake, heq⟩ := Option.map_eq_some_iff.mp h
  simp only [Prod.mk.injEq] at heq
  obtain ⟨rfl, rfl, rfl⟩ := heq
  exact ⟨rfl, htake⟩

/-- With no free span of the size in the page cache, a span comes from `mmap`. -/
theorem allocateSpan_mmap {p p' : PageCache} {m m' : Memory} {numPages a : Nat} {answer : Option Nat}
    (hfree : p.lowerBound numPages = none) (h : p.allocateSpan m numPages answer = some (p', m', a)) :
    (a = 0 ∧ answer = none ∧ m' = m ∧ p' = p) ∨
      (answer = some a ∧ 0 < Memory.mmapSize numPages ∧ m.Fresh ⟨a, Memory.mmapSize numPages⟩ ∧
        m' = { word := fun x => if a ≤ x ∧ x < a + Memory.mmapSize numPages then 0 else m.word x
               regions := ⟨a, Memory.mmapSize numPages⟩ :: m.regions } ∧
        p' = { p with
          spans := Function.update p.spans p.nextSpan { pageAddr := a, numPages := numPages }
          nextSpan := p.nextSpan + 1
          spanMap := Function.update p.spanMap a (some p.nextSpan) }) := by
  unfold PageCache.allocateSpan at h
  rw [hfree] at h
  dsimp only at h
  cases answer with
  | none =>
    simp only [Memory.systemAlloc, if_pos, Option.some.injEq, Prod.mk.injEq] at h
    obtain ⟨rfl, rfl, rfl⟩ := h
    exact Or.inl ⟨rfl, rfl, rfl, rfl⟩
  | some a' =>
    simp only [Memory.systemAlloc] at h
    split at h
    · exact absurd h (by simp)
    · next m₁ a₁ hm =>
      split at hm
      · next hfresh =>
        simp only [Option.some.injEq, Prod.mk.injEq] at hm
        obtain ⟨rfl, rfl⟩ := hm
        have hne : a' ≠ 0 := Nat.pos_iff_ne_zero.mp hfresh.2.1
        rw [if_neg hne] at h
        simp only [Option.some.injEq, Prod.mk.injEq] at h
        obtain ⟨rfl, rfl, rfl⟩ := h
        exact Or.inr ⟨rfl, hfresh.1, hfresh.2, rfl, rfl⟩
      · exact absurd hm (by simp)

/-- The spans the central cache asks for are small. -/
theorem mmapSize_span {index : Nat} (h : index < FREE_LIST_SIZE) (a : Nat) :
    Memory.mmapSize (spanPages (blockSize index)) = (spanRange index a).bytes := by
  have hindex : index < 32768 := h
  refine Nat.mod_eq_of_lt ?_
  unfold spanPages blockSize
  split
  · simp [SPAN_PAGES, PAGE_SIZE]
  · simp only [ALIGNMENT, PAGE_SIZE]
    omega

/-- `mmap` fails: the lock is released. -/
theorem Safe.spanFailed {s : State} {w : Nat → Option Slot} (hi : Safe s w) {tid size index : Nat}
    {p : PageCache} (hpc : s.threads tid = .needSpan size index) (hp : p.freeSpans = []) :
    Safe (setPc (setLock { s with pages := p } index false) tid .idle) w := by
  refine ⟨hi.blocks, hi.lists, hi.small, hi.distinct, hi.large, ?_,
    apart_setPc rfl hi.apart fun t _ => PcApart.of_none rfl rfl, hp⟩
  refine threads_setPc rfl (PcSafe.idle ..) fun t ht => ?_
  have h := hi.threads t
  refine ⟨h.call, fun {i} hh => ⟨?_, (h.lock hh).2⟩, h.span, h.hand, h.watched⟩
  have hne : i ≠ index := by
    rintro rfl
    have hap := hi.apart ht
    rw [hpc] at hap
    exact hap.holds hh rfl
  show Function.update s.locks index false i = true
  rw [Function.update_of_ne hne]
  exact (h.lock hh).1

/-- The blocks of the table are apart from a region `mmap` has just given out. -/
theorem Blocks.apart_fresh {m : Memory} {w : Nat → Option Slot} (hb : Blocks m.regions w) {r : Range}
    (hr : m.Fresh r) {a : Nat} {x : Slot} (ha : w a = some x) : (x.range a).Apart r := by
  obtain ⟨r', hr', h₁, h₂⟩ := hb.inside ha
  have hap : r.start + r.bytes ≤ r'.start ∨ r'.start + r'.bytes ≤ r.start := hr.2.2 r' hr'
  show a + blockSize x.cls ≤ r.start ∨ r.start + r.bytes ≤ a
  omega

/-- The lists do not go through it. -/
theorem Blocks.lists_zeroed {m : Memory} {w : Nat → Option Slot} (hb : Blocks m.regions w) {r : Range}
    (hr : m.Fresh r) {heads : Option Nat × Nat → Nat} (hl : Lists 0 m.word heads (onList w)) :
    Lists 0 (fun x => if r.start ≤ x ∧ x < r.start + r.bytes then 0 else m.word x) heads (onList w) := by
  refine hl.frame fun c k hc => if_neg ?_
  have hap := hb.apart_fresh hr (onList_eq_some.mp hc)
  have hap' : c + blockSize k.2 ≤ r.start ∨ r.start + r.bytes ≤ c := hap
  have := blockSize_pos k.2
  omega

theorem Safe.gotSpan {s : State} {w : Nat → Option Slot} (hi : Safe s w) {tid size index a : Nat}
    {p : PageCache} (hpc : s.threads tid = .needSpan size index) (hp : p.freeSpans = [])
    (hfresh : s.mem.Fresh (spanRange index a))
    (hlarge : ∀ b ∈ s.live, MAX_BYTES < b.size → b.range.Apart (spanRange index a)) :
    Safe (setPc { s with
        pages := p
        mem :=
          { word := fun x => if a ≤ x ∧ x < a + (spanRange index a).bytes then 0 else s.mem.word x
            regions := spanRange index a :: s.mem.regions } } tid (.gotSpan size index a)) w := by
  have hold := hi.threads tid
  rw [hpc] at hold
  have hsub : ∀ r ∈ s.mem.regions, r ∈ spanRange index a :: s.mem.regions :=
    fun r hr => List.mem_cons_of_mem _ hr
  refine ⟨hi.blocks.mono hsub, hi.blocks.lists_zeroed hfresh hi.lists, hi.small, hi.distinct, ?_, ?_,
    apart_setPc rfl hi.apart ?_, hp⟩
  · intro b hb hbig r hr
    rcases List.mem_cons.mp hr with rfl | hr
    · exact hlarge b hb hbig
    · exact hi.large hb hbig r hr
  · refine threads_setPc rfl ⟨hold.call, hold.lock, ?_, ?_, ?_⟩ fun t _ => ?_
    · intro r h
      obtain rfl := Option.some.inj h
      refine ⟨List.mem_cons_self, hfresh.1, ?_, fun ha => hi.blocks.apart_fresh hfresh ha⟩
      have hpage : a % 4096 = 0 := hfresh.2.1
      show a % 8 = 0
      omega
    · exact fun h => absurd h (by simp [Pc.hand])
    · intro c h
      obtain rfl := Option.some.inj h
      exact if_pos ⟨Nat.le_refl _, Nat.lt_add_of_pos_right (span_bytes_pos index a)⟩
    · have h := hi.threads t
      refine ⟨h.call, h.lock, fun hr => ?_, h.hand, fun {c} hc => ?_⟩
      · obtain ⟨hr, hrest⟩ := h.span hr
        exact ⟨hsub _ hr, hrest⟩
      · show (if a ≤ c ∧ c < a + (spanRange index a).bytes then 0 else s.mem.word c) = 0
        split
        · rfl
        · exact h.watched hc
  · intro t ht
    have hap := hi.apart ht.symm
    rw [hpc] at hap
    refine ⟨hap.holds, fun h h' => ?_⟩
    obtain rfl := Option.some.inj h
    exact hfresh.2.2 _ ((hi.threads t).span h').1

/-! ## 5. Cutting it up -/

/-- The table with the blocks of a new span, the first of them in hand. -/
def carved (w : Nat → Option Slot) (index start tid a : Nat) : Option Slot :=
  if a = start then some ⟨index, .inHand tid⟩
  else if a ∈ restBlocks start (blockSize index) then some ⟨index, .free none⟩
  else w a

theorem blockAt_zero (start size : Nat) : blockAt start size 0 = start := by
  rw [blockAt, Nat.zero_mul, Nat.add_zero]

/-- The blocks of a span lie inside it. -/
theorem blockAt_inside {index j : Nat} (start : Nat) (hj : j < blockNum (blockSize index)) :
    start ≤ blockAt start (blockSize index) j ∧
      blockAt start (blockSize index) j + blockSize index ≤ start + (spanRange index start).bytes := by
  have h := block_le_span hj
  unfold blockAt spanRange
  dsimp only
  omega

theorem blockAt_apart {start size j k : Nat} (h : j < k) :
    blockAt start size j + size ≤ blockAt start size k := by
  have hle : (j + 1) * size ≤ k * size := Nat.mul_le_mul_right _ h
  rw [Nat.succ_mul] at hle
  unfold blockAt
  omega

/-- A block, or a span, apart from the new span starts at none of its blocks. -/
theorem ne_blockAt {index start : Nat} {r : Range} (hap : r.Apart (spanRange index start))
    (hpos : 0 < r.bytes) : ∀ j, j < blockNum (blockSize index) →
      r.start ≠ blockAt start (blockSize index) j := by
  intro j hj heq
  obtain ⟨h₁, h₂⟩ := blockAt_inside start hj
  have h : r.start + r.bytes ≤ start ∨ start + (spanRange index start).bytes ≤ r.start := hap
  have := blockSize_pos index
  omega

theorem carved_old {w : Nat → Option Slot} {index start tid a : Nat}
    (ha : ∀ j, j < blockNum (blockSize index) → a ≠ blockAt start (blockSize index) j) :
    carved w index start tid a = w a := by
  have h₀ : a ≠ start := by
    have h := ha 0 (blockNum_pos index)
    rwa [blockAt_zero] at h
  have hrest : a ∉ restBlocks start (blockSize index) := by
    intro hm
    obtain ⟨j, -, hj, heq⟩ := mem_restBlocks.mp hm
    exact ha j hj heq
  rw [carved, if_neg h₀, if_neg hrest]

theorem carved_rest {w : Nat → Option Slot} {index start tid a : Nat}
    (ha : a ∈ restBlocks start (blockSize index)) :
    carved w index start tid a = some ⟨index, .free none⟩ := by
  have h₀ : a ≠ start := by
    obtain ⟨j, hj, -, rfl⟩ := mem_restBlocks.mp ha
    have : 0 < j * blockSize index := Nat.mul_pos hj (blockSize_pos index)
    unfold blockAt
    omega
  rw [carved, if_neg h₀, if_pos ha]

theorem carved_cases {w : Nat → Option Slot} {index start tid a : Nat} {x : Slot}
    (h : carved w index start tid a = some x) :
    (∃ j, j < blockNum (blockSize index) ∧ a = blockAt start (blockSize index) j ∧ x.cls = index) ∨
      w a = some x := by
  unfold carved at h
  split at h
  · next h₀ =>
    refine Or.inl ⟨0, blockNum_pos index, by rw [blockAt_zero]; exact h₀, ?_⟩
    rw [← Option.some.inj h]
  · split at h
    · next hm =>
      obtain ⟨j, -, hj, heq⟩ := mem_restBlocks.mp hm
      refine Or.inl ⟨j, hj, heq, ?_⟩
      rw [← Option.some.inj h]
    · exact Or.inr h

theorem Blocks.carved {regions : List Range} {w : Nat → Option Slot} {index start tid : Nat}
    (hb : Blocks regions w) (hr : spanRange index start ∈ regions) (hpos : 0 < start)
    (hal : start % 8 = 0) (hap : ∀ {a x}, w a = some x → (x.range a).Apart (spanRange index start)) :
    Blocks regions (carved w index start tid) := by
  -- an old block and a new one
  have hmix : ∀ {a x j}, w a = some x → j < blockNum (blockSize index) →
      a + blockSize x.cls ≤ blockAt start (blockSize index) j ∨
        blockAt start (blockSize index) j + blockSize index ≤ a := by
    intro a x j ha hj
    obtain ⟨h₁, h₂⟩ := blockAt_inside start hj
    have h : a + blockSize x.cls ≤ start ∨ start + (spanRange index start).bytes ≤ a := hap ha
    omega
  refine ⟨?_, ?_, ?_, ?_⟩
  · intro a x h
    rcases carved_cases h with ⟨j, hj, rfl, -⟩ | h
    · have := (blockAt_inside start hj).1
      omega
    · exact hb.pos h
  · intro a x h
    rcases carved_cases h with ⟨j, hj, rfl, -⟩ | h
    · have hmul : j * blockSize index % 8 = 0 := by
        rw [Nat.mul_mod, blockSize_mod, Nat.mul_zero, Nat.zero_mod]
      unfold blockAt
      omega
    · exact hb.aligned h
  · intro a x h
    rcases carved_cases h with ⟨j, hj, rfl, hcls⟩ | h
    · rw [hcls]
      exact ⟨_, hr, blockAt_inside start hj⟩
    · exact hb.inside h
  · intro a b x y hx hy hne
    show a + blockSize x.cls ≤ b ∨ b + blockSize y.cls ≤ a
    rcases carved_cases hx with ⟨j, hj, rfl, hcls⟩ | hx
    · rw [hcls]
      rcases carved_cases hy with ⟨k, hk, rfl, hcls'⟩ | hy
      · rw [hcls']
        rcases Nat.lt_trichotomy j k with h | rfl | h
        · exact Or.inl (blockAt_apart h)
        · exact absurd rfl hne
        · exact Or.inr (blockAt_apart h)
      · exact (hmix hy hj).symm
    · rcases carved_cases hy with ⟨k, hk, rfl, hcls'⟩ | hy
      · rw [hcls']
        exact hmix hx hk
      · exact hb.apart hx hy hne

/-- The blocks behind the first are the list of their class. -/
theorem lists_carved {w : Nat → Option Slot} {heads : Option Nat × Nat → Nat} {word word' : Nat → Nat}
    {index start tid head : Nat} (hl : Lists 0 word heads (onList w)) (hempty : heads (none, index) = 0)
    (hne : ∀ {a x}, w a = some x → ∀ j, j < blockNum (blockSize index) →
      a ≠ blockAt start (blockSize index) j)
    (hword : ∀ a, (∀ j, j < blockNum (blockSize index) → a ≠ blockAt start (blockSize index) j) →
      word' a = word a)
    (hchain : Chain 0 word' head (restBlocks start (blockSize index))) :
    Lists 0 word' (Function.update heads (none, index) head) (onList (carved w index start tid)) := by
  have hfirst : w start = none := by
    rw [Option.eq_none_iff_forall_ne_some]
    intro x hx
    exact hne hx 0 (blockNum_pos index) (blockAt_zero ..).symm
  have hnew : ∀ a ∈ restBlocks start (blockSize index), w a = none := by
    intro a ha
    rw [Option.eq_none_iff_forall_ne_some]
    intro x hx
    obtain ⟨j, -, hj, heq⟩ := mem_restBlocks.mp ha
    exact hne hx j hj heq
  refine hl.fill hempty hchain ?_ ?_ ?_ ?_
  · intro a ha
    rw [onList, hnew a ha]
    rfl
  · exact fun a k ha => hword a (hne (onList_eq_some.mp ha))
  · intro a ha
    rw [onList, carved_rest ha]
    rfl
  · intro a ha
    unfold onList carved
    rw [if_neg ha]
    split
    · next h₀ => rw [h₀, hfirst]; rfl
    · rfl

theorem Safe.carve {s : State} {w : Nat → Option Slot} (hi : Safe s w) {tid size index start : Nat}
    (hpc : s.threads tid = .gotSpan size index start) {c : CentralCache} {m : Memory}
    (h : Pool.carve s.central s.mem index start = (c, m)) :
    Safe (setPc (setLock { s with central := c, mem := m } index false) tid
      (.gotRange size index start)) (carved w index start tid) := by
  have hold := hi.threads tid
  rw [hpc] at hold
  obtain ⟨hr, hpos, hal, hap⟩ := hold.span rfl
  obtain ⟨hlock, hempty⟩ := hold.lock rfl
  obtain ⟨hreg, hstart, hword, head, hlist, hchain⟩ := carve_spec h hpos hempty (hold.watched rfl)
  -- the blocks there were are none of the new ones
  have hne : ∀ {a x}, w a = some x → ∀ j, j < blockNum (blockSize index) →
      a ≠ blockAt start (blockSize index) j := by
    intro a x ha
    exact ne_blockAt (hap ha) (blockSize_pos x.cls)
  have hkeep : ∀ {a x}, w a = some x → carved w index start tid a = some x := by
    intro a x ha
    rw [carved_old (hne ha)]
    exact ha
  refine ⟨?_, ?_, ?_, hi.distinct, ?_, ?_, apart_setPc rfl hi.apart fun t _ => PcApart.of_none rfl rfl,
    hi.noFree⟩
  · show Blocks m.regions _
    rw [hreg]
    exact hi.blocks.carved hr hpos hal hap
  · dsimp only [setPc, setLock]
    rw [heads_central hlist]
    exact lists_carved hi.lists hempty hne hword hchain
  · exact fun hb hs => hkeep (hi.small hb hs)
  · show ∀ {b}, b ∈ s.live → MAX_BYTES < b.size → ∀ r ∈ m.regions, b.range.Apart r
    rw [hreg]
    exact hi.large
  · refine threads_setPc rfl ⟨hold.call, ?_, ?_, ?_, ?_⟩ fun t ht => ?_
    · exact fun h => absurd h (by simp [Pc.holds])
    · exact fun h => absurd h (by simp [Pc.span])
    · intro i a h
      simp only [Pc.hand, Option.some.injEq, Prod.mk.injEq] at h
      obtain ⟨rfl, rfl⟩ := h
      exact if_pos rfl
    · intro a h
      obtain rfl := Option.some.inj h
      exact hstart
    · have h := hi.threads t
      have hap' := hi.apart ht
      rw [hpc] at hap'
      refine ⟨h.call, ?_, ?_, fun hh => hkeep (h.hand hh), ?_⟩
      · intro i hh
        have hnei : i ≠ index := by
          rintro rfl
          exact hap'.holds hh rfl
        refine ⟨?_, ?_⟩
        · show Function.update s.locks index false i = true
          rw [Function.update_of_ne hnei]
          exact (h.lock hh).1
        · show c.centralFreeList i = 0
          rw [hlist, Function.update_of_ne hnei]
          exact (h.lock hh).2
      · intro r hh
        obtain ⟨hr', hpos', hal', hapr⟩ := h.span hh
        refine ⟨by show r ∈ m.regions; rw [hreg]; exact hr', hpos', hal', fun {a x} hx => ?_⟩
        rcases carved_cases hx with ⟨j, hj, rfl, hcls⟩ | hx
        · obtain ⟨h₁, h₂⟩ := blockAt_inside start hj
          have hrr : r.start + r.bytes ≤ start ∨ start + (spanRange index start).bytes ≤ r.start :=
            hap'.span hh rfl
          show blockAt start (blockSize index) j + blockSize x.cls ≤ r.start ∨
            r.start + r.bytes ≤ blockAt start (blockSize index) j
          rw [hcls]
          omega
        · exact hapr hx
      · intro a hh
        show m.word a = 0
        rw [hword a]
        · exact h.watched hh
        · rcases Pc.watched_cases hh with ⟨r, hr', rfl, hpos'⟩ | ⟨index', hh'⟩
          · exact ne_blockAt (hap'.span hr' rfl) hpos'
          · exact hne (h.hand hh')

/-! ## 6. Every step -/

theorem Safe.allocate {s s' : State} {w : Nat → Option Slot} {tid size malloc : Nat} {es : List Event}
    (hi : Safe s w) (hidle : s.threads tid = .idle)
    (h : allocate s tid size malloc = some (s', es)) : ∃ w', Safe s' w' := by
  unfold Pool.allocate at h
  simp only [large_iff, getIndex_zero] at h
  split at h
  · next hsize =>
    split at h
    · simp only [Option.some.injEq, Prod.mk.injEq] at h
      obtain ⟨rfl, -⟩ := h
      exact ⟨w, hi⟩
    · split at h
      · next hfresh =>
        simp only [hand, Option.some.injEq, Prod.mk.injEq] at h
        obtain ⟨rfl, -⟩ := h
        exact ⟨w, hi.takeLarge hsize hfresh.2.1⟩
      · exact absurd h (by simp)
  · next hsmall =>
    have hsize := Nat.not_lt.mp hsmall
    split at h
    · next hptr =>
      simp only [Option.some.injEq] at h
      have h' := hi.takeOwn (n := (s.caches tid).freeListSize (getIndex size) - 1) hidle hsize hptr
      rw [h] at h'
      exact ⟨_, h'⟩
    · next hptr =>
      simp only [Option.some.injEq, Prod.mk.injEq] at h
      obtain ⟨rfl, -⟩ := h
      exact ⟨w, hi.wantLock hsize (not_not.mp hptr)⟩

theorem Safe.deallocate {s : State} {w : Nat → Option Slot} {tid : Nat} {b : Block}
    (hi : Safe s w) (hidle : s.threads tid = .idle) (hb : b ∈ s.live) :
    ∃ w', Safe (deallocate s tid b).1 w' := by
  unfold Pool.deallocate
  dsimp only
  split
  · exact ⟨w, hi.giveLarge hb⟩
  · next hsmall => exact ⟨_, hi.giveOwn hidle hb (Nat.not_lt.mp hsmall)⟩

theorem Safe.lockSection {s s' : State} {w : Nat → Option Slot} {tid size index : Nat}
    {es : List Event} (hi : Safe s w) (hpc : s.threads tid = .wantLock size index)
    (h : lockSection s tid size index = some (s', es)) : ∃ w', Safe s' w' := by
  have hold := hi.threads tid
  rw [hpc] at hold
  obtain ⟨hsize, rfl, -⟩ := hold.call rfl
  unfold Pool.lockSection at h
  rw [if_neg (Nat.not_le.mpr (getIndex_lt hsize))] at h
  split at h
  · exact absurd h (by simp)
  · next hlock =>
    have hfree : s.locks (getIndex size) = false := by simpa using hlock
    dsimp only at h
    split at h
    · next hhead =>
      simp only [Option.some.injEq, Prod.mk.injEq] at h
      obtain ⟨rfl, -⟩ := h
      exact ⟨_, hi.takeCentral hpc hfree hhead⟩
    · next hhead =>
      simp only [Option.some.injEq, Prod.mk.injEq] at h
      obtain ⟨rfl, -⟩ := h
      exact ⟨w, hi.needSpan hpc hfree (not_not.mp hhead)⟩

theorem Safe.spanSection {s s' : State} {w : Nat → Option Slot} {tid size index : Nat}
    {answer : Option Nat} {es : List Event} (hi : Safe s w)
    (hpc : s.threads tid = .needSpan size index)
    (h : spanSection s tid size index answer = some (s', es)) : ∃ w', Safe s' w' := by
  unfold Pool.spanSection at h
  dsimp only at h
  split at h
  · next hlarge =>
    split at h
    · exact absurd h (by simp)
    · next p m a hspan =>
      have hnone : s.pages.lowerBound (spanPages (blockSize index)) = none := by
        unfold PageCache.lowerBound
        rw [hi.noFree, List.find?_nil]
      have hold := hi.threads tid
      rw [hpc] at hold
      obtain ⟨hsize, rfl, -⟩ := hold.call rfl
      have hcases := allocateSpan_mmap hnone hspan
      rw [mmapSize_span (getIndex_lt hsize) a] at hcases
      split at h
      · next ha =>
        rcases hcases with ⟨-, -, rfl, rfl⟩ | ⟨-, -, hfresh, -⟩
        · simp only [Option.some.injEq, Prod.mk.injEq] at h
          obtain ⟨rfl, -⟩ := h
          exact ⟨w, hi.spanFailed hpc hi.noFree⟩
        · exact absurd ha (Nat.pos_iff_ne_zero.mp hfresh.1)
      · next ha =>
        rcases hcases with ⟨ha', -⟩ | ⟨hans, -, hfresh, rfl, rfl⟩
        · exact absurd ha' ha
        · simp only [Option.some.injEq, Prod.mk.injEq] at h
          obtain ⟨rfl, -⟩ := h
          refine ⟨w, hi.gotSpan hpc ?_ hfresh (hlarge a hans)⟩
          exact hi.noFree
  · exact absurd h (by simp)

/-- **One step keeps the blocks apart.** -/
theorem Safe.step {s s' : State} {w : Nat → Option Slot} {l : Label} {es : List Event} (hi : Safe s w)
    (h : step s l = some (s', es)) : ∃ w', Safe s' w' := by
  cases l with
  | allocate tid size malloc =>
    simp only [Pool.step] at h
    split at h
    · next hidle => exact hi.allocate hidle h
    · exact absurd h (by simp)
  | lock tid =>
    simp only [Pool.step] at h
    split at h
    · next hpc => exact hi.lockSection hpc h
    · exact absurd h (by simp)
  | span tid answer =>
    simp only [Pool.step] at h
    split at h
    · next hpc => exact hi.spanSection hpc h
    · exact absurd h (by simp)
  | carve tid =>
    simp only [Pool.step] at h
    split at h
    · next hpc =>
      simp only [carveSection, Option.some.injEq, Prod.mk.injEq] at h
      obtain ⟨rfl, -⟩ := h
      exact ⟨_, hi.carve hpc rfl⟩
    · exact absurd h (by simp)
  | finish tid rounds =>
    simp only [Pool.step] at h
    split at h
    · next size index start hpc =>
      unfold Pool.finish at h
      dsimp only at h
      split at h
      · exact absurd h (by simp)
      · next blocks hw =>
        simp only [Option.some.injEq] at h
        have h' := hi.finish (n := (s.caches tid).freeListSize index + blocks.length) hpc
        rw [h] at h'
        exact ⟨_, h'⟩
    · exact absurd h (by simp)
  | deallocate tid b =>
    simp only [Pool.step] at h
    split at h
    · next hidle =>
      split at h
      · next hb =>
        have h' := hi.deallocate hidle hb
        rw [Option.some.inj h] at h'
        exact h'
      · exact absurd h (by simp)
    · exact absurd h (by simp)
  | write b a v =>
    simp only [Pool.step] at h
    split at h
    · next hw =>
      obtain ⟨hb, ha, ha'⟩ := hw
      simp only [Option.some.injEq, Prod.mk.injEq] at h
      obtain ⟨rfl, -⟩ := h
      unfold Block.range at ha ha'
      by_cases hsize : b.size ≤ MAX_BYTES
      · rw [if_pos hsize] at ha'
        exact ⟨w, hi.writeSmall v hb hsize ha ha'⟩
      · rw [if_neg hsize] at ha'
        exact ⟨w, hi.writeLarge v hb (Nat.not_le.mp hsize) ha ha'⟩
    · exact absurd h (by simp)

theorem Safe.start : Safe {} fun _ => none := by
  refine ⟨⟨fun h => absurd h (by simp), fun h => absurd h (by simp), fun h => absurd h (by simp),
    fun h => absurd h (by simp)⟩, ?_, fun h => absurd h (by simp), List.nodup_nil,
    fun h => absurd h (by simp), fun t => PcSafe.idle .., fun _ => PcApart.of_none rfl rfl, rfl⟩
  rintro ⟨o, i⟩
  refine ⟨[], ?_, fun a => ⟨fun h => absurd h (by simp), fun h => absurd h (by simp [onList])⟩⟩
  cases o with
  | none => rfl
  | some t => rfl

theorem Safe.run {ls : List Label} {s : State} {τ : List Event}
    (hr : run Pool.step {} ls = some (s, τ)) : ∃ w, Safe s w := by
  refine run_inv_state (fun s => ∃ w, Safe s w) ?_ ⟨_, Safe.start⟩ hr
  rintro s l s' es ⟨w, hi⟩ hs
  exact hi.step hs

/-! ## 7. Allocator safety -/

theorem Block.range_small {b : Block} (h : b.size ≤ MAX_BYTES) :
    b.range = ⟨b.addr, blockSize (getIndex b.size)⟩ := by
  rw [Block.range, if_pos h]

/-- **Live blocks are safe.** Whatever the threads do, in whatever order, and whatever the
    owners write: the live blocks of the pool do not overlap; each is as long as asked for,
    8-aligned, inside a region `mmap` gave out, and overlaps no block on a thread's list or on
    a central list. -/
theorem allocator_safety {ls : List Label} {s : State} {τ : List Event}
    (hr : run step {} ls = some (s, τ)) :
    (s.live.filter isSmall).Pairwise (fun b c => b.range.Apart c.range) ∧
      ∀ b ∈ s.live, b.size ≤ MAX_BYTES →
        b.range = ⟨b.addr, (getIndex b.size + 1) * 8⟩ ∧ b.size ≤ b.range.bytes ∧ b.addr % 8 = 0 ∧
        (∃ r ∈ s.mem.regions, r.start ≤ b.addr ∧ b.addr + b.range.bytes ≤ r.start + r.bytes) ∧
        (∀ t i a, OnList 0 s.mem.word ((s.caches t).freeList i) a → b.range.Apart ⟨a, blockSize i⟩) ∧
        ∀ i a, OnList 0 s.mem.word (s.central.centralFreeList i) a → b.range.Apart ⟨a, blockSize i⟩ := by
  obtain ⟨w, hi⟩ := Safe.run hr
  refine ⟨?_, fun b hb hsize => ?_⟩
  · refine (List.pairwise_map.mp hi.distinct).imp_of_mem fun {b c} hb hc hne => ?_
    obtain ⟨hb, hbs⟩ := List.mem_filter.mp hb
    obtain ⟨hc, hcs⟩ := List.mem_filter.mp hc
    have hbs' : b.size ≤ MAX_BYTES := by simpa [isSmall] using hbs
    have hcs' : c.size ≤ MAX_BYTES := by simpa [isSmall] using hcs
    have hap := hi.blocks.apart (hi.small hb hbs') (hi.small hc hcs') hne
    rw [Block.range_small hbs', Block.range_small hcs']
    exact hap
  · have hw := hi.small hb hsize
    have hlist : ∀ o i a, OnList 0 s.mem.word (heads s.central s.caches (o, i)) a → b.range.Apart ⟨a, blockSize i⟩ := by
      intro o i a ha
      have hfree := onList_eq_some.mp (hi.lists.onList_iff.mp ha)
      have hne : b.addr ≠ a := by
        rintro rfl
        rw [hw] at hfree
        exact absurd hfree (by simp)
      have hap := hi.blocks.apart hw hfree hne
      rw [Block.range_small hsize]
      exact hap
    have hrange := Block.range_small hsize
    have hal := hi.blocks.aligned hw
    refine ⟨?_, ?_, hal, ?_, fun t => hlist (some t), hlist none⟩
    · rw [hrange]
      simp only [blockSize, ALIGNMENT]
    · rw [hrange]
      exact le_blockSize b.size
    · have hin := hi.blocks.inside hw
      rw [hrange]
      exact hin

/-- Two threads share a span of two blocks; the owner of the first writes into it, and the
    other thread gives it back and asks again. -/
theorem allocator_safety_shared : ∃ s τ, run step {}
    [.allocate 0 16384 0, .lock 0, .span 0 (some 4096), .carve 0, .finish 0 0, .allocate 1 16380 0,
      .lock 1, .finish 1 0, .write ⟨4096, 16384⟩ 4096 20480, .deallocate 1 ⟨4096, 16384⟩,
      .write ⟨20480, 16380⟩ 20480 4096, .allocate 1 16384 0] = some (s, τ) ∧
    s.live = [⟨4096, 16384⟩, ⟨20480, 16380⟩] ∧
    (s.live.filter isSmall).Pairwise (fun b c => b.range.Apart c.range) := by
  have hlive : (run step {}
    [.allocate 0 16384 0, .lock 0, .span 0 (some 4096), .carve 0, .finish 0 0, .allocate 1 16380 0,
      .lock 1, .finish 1 0, .write ⟨4096, 16384⟩ 4096 20480, .deallocate 1 ⟨4096, 16384⟩,
      .write ⟨20480, 16380⟩ 20480 4096, .allocate 1 16384 0]).map (fun p => p.1.live)
      = some [⟨4096, 16384⟩, ⟨20480, 16380⟩] := by decide +kernel
  obtain ⟨⟨s, τ⟩, hr, hlive⟩ := Option.map_eq_some_iff.mp hlive
  exact ⟨s, τ, hr, hlive, (allocator_safety hr).1⟩

end Pool
end EpollChat
