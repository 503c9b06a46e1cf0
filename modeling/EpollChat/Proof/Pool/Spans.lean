import EpollChat.Proof.Pool.Safety
import EpollChat.Proof.Pool.Unlink

/-!
# Tracked spans over a run of calls

Every tracker stands for a span that was cut up whole: the blocks of the table that lie in the
span are its blocks, all of them, and all of its class. As long as each new span comes from
`mmap`, two trackers stand for spans that do not overlap, so the tracker a block is found
under is the one of the span it was cut from.

The counters of the trackers are not in the invariant. What they stand for depends on when the
delayed returns came, and nothing below needs it.
-/

namespace EpollChat
namespace Pool
namespace Calls

open Lib Machine

/-! ## 1. Several blocks of a class change place -/

def placeAll (w : Nat → Option Slot) (l : List Nat) (index : Nat) (p : Place) (a : Nat) : Option Slot :=
  if a ∈ l then some ⟨index, p⟩ else w a

theorem sameClasses_placeAll {w : Nat → Option Slot} {l : List Nat} {index : Nat}
    (h : ∀ a ∈ l, ∃ q, w a = some ⟨index, q⟩) (p : Place) : SameClasses w (placeAll w l index p) := by
  intro a
  unfold placeAll
  split
  · next ha =>
    obtain ⟨q, hq⟩ := h a ha
    rw [hq]
    rfl
  · rfl

theorem onList_placeAll (w : Nat → Option Slot) (l : List Nat) (index : Nat) (p : Place) (a : Nat) :
    onList (placeAll w l index p) a = if a ∈ l then Slot.list ⟨index, p⟩ else onList w a := by
  unfold onList placeAll
  split <;> rfl

/-! ## 2. The invariant -/

/-- A carving, its tracker, and its blocks in the table. -/
structure CarvingOk (c : CentralCache) (regions : List Range) (w : Nat → Option Slot) (k : Carving) :
    Prop where
  below : k.tracker < min c.spanCount TRACKERS
  addr : (c.spanTrackers k.tracker).spanAddr = k.start
  pages : (c.spanTrackers k.tracker).numPages = spanPages (blockSize k.index)
  count : (c.spanTrackers k.tracker).blockCount = blockNum (blockSize k.index)
  pos : 0 < k.start
  region : spanRange k.index k.start ∈ regions
  whole : ∀ {j}, j < blockNum (blockSize k.index) →
    ∃ p, w (blockAt k.start (blockSize k.index) j) = some ⟨k.index, p⟩
  tiled : ∀ {a x}, w a = some x → k.start ≤ a → a < k.start + (spanRange k.index k.start).bytes →
    ∃ j, j < blockNum (blockSize k.index) ∧ a = blockAt k.start (blockSize k.index) j

theorem CarvingOk.of_same {c c' : CentralCache} {regions : List Range} {w w' : Nat → Option Slot}
    {k : Carving} (hk : CarvingOk c regions w k) (hc : SameSpans c c') (hw : SameClasses w w') :
    CarvingOk c' regions w' k := by
  refine ⟨by rw [hc.count]; exact hk.below, (hc.addr _).trans hk.addr, (hc.pages _).trans hk.pages,
    (hc.blocks _).trans hk.count, hk.pos, hk.region, ?_, ?_⟩
  · intro j hj
    obtain ⟨p, hp⟩ := hk.whole hj
    have h := hw (blockAt k.start (blockSize k.index) j)
    rw [hp, Option.map_some] at h
    obtain ⟨⟨i, q⟩, hq, rfl⟩ := Option.map_eq_some_iff.mp h
    exact ⟨q, hq⟩
  · intro a y hy
    obtain ⟨x, hx, -⟩ := hw.back hy
    exact hk.tiled hx

/-- Their spans do not overlap, and their trackers are two. -/
def Carving.Apart (k k' : Carving) : Prop :=
  k.tracker ≠ k'.tracker ∧ (spanRange k.index k.start).Apart (spanRange k'.index k'.start)

theorem Carving.Apart.symm {k k' : Carving} (h : k.Apart k') : k'.Apart k :=
  ⟨h.1.symm, Range.Apart.symm h.2⟩

structure Ok (s : State) (w : Nat → Option Slot) : Prop where
  blocks : Blocks s.mem.regions w
  lists : Lists 0 s.mem.word (heads s.central fun _ => {}) (onList w)
  held : ∀ {i a}, (i, a) ∈ s.held → w a = some ⟨i, .inHand 0⟩
  carvings : ∀ {k}, k ∈ s.carvings → CarvingOk s.central s.mem.regions w k
  covered : ∀ {t}, t < min s.central.spanCount TRACKERS → ∃ k ∈ s.carvings, k.tracker = t
  apart : ∀ {k k'}, k ∈ s.carvings → k' ∈ s.carvings → k = k' ∨ k.Apart k'

/-- Blocks change place and nothing else does. -/
theorem Ok.move {s s' : State} {w w' : Nat → Option Slot} (hi : Ok s w) (hw : SameClasses w w')
    (hreg : s'.mem.regions = s.mem.regions) (hc : SameSpans s.central s'.central)
    (hcarv : s'.carvings = s.carvings)
    (hlists : Lists 0 s'.mem.word (heads s'.central fun _ => {}) (onList w'))
    (hheld : ∀ {i a}, (i, a) ∈ s'.held → w' a = some ⟨i, .inHand 0⟩) : Ok s' w' := by
  refine ⟨?_, hlists, hheld, ?_, ?_, ?_⟩
  · rw [hreg]
    exact hi.blocks.of_classes hw
  · intro k hk
    rw [hcarv] at hk
    rw [hreg]
    exact (hi.carvings hk).of_same hc hw
  · intro t ht
    rw [hc.count] at ht
    rw [hcarv]
    exact hi.covered ht
  · rw [hcarv]
    exact hi.apart

theorem Ok.start : Ok {} fun _ => none := by
  refine ⟨⟨fun h => absurd h (by simp), fun h => absurd h (by simp), fun h => absurd h (by simp),
    fun h => absurd h (by simp)⟩, ?_, fun h => absurd h (by simp), fun h => absurd h (by simp),
    fun h => absurd h (by simp), fun h => absurd h (by simp)⟩
  rintro ⟨o, i⟩
  refine ⟨[], ?_, fun a => ⟨fun h => absurd h (by simp), fun h => absurd h (by simp [onList])⟩⟩
  cases o with
  | none => rfl
  | some t => rfl

/-! ## 3. Which tracker a block is found under -/

theorem getSpanTracker_some {c : CentralCache} {a t : Nat} (h : c.getSpanTracker a = some t) :
    t < min c.spanCount TRACKERS ∧ InSpan (c.spanTrackers t) a := by
  unfold CentralCache.getSpanTracker at h
  have hcov := List.find?_some h
  rw [decide_eq_true_eq] at hcov
  exact ⟨List.mem_range.mp (List.mem_of_find?_eq_some h), hcov.2.2⟩

theorem CarvingOk.inSpan {c : CentralCache} {regions : List Range} {w : Nat → Option Slot} {k : Carving}
    (hk : CarvingOk c regions w k) (a : Nat) : InSpan (c.spanTrackers k.tracker) a ↔
      k.start ≤ a ∧ a < k.start + (spanRange k.index k.start).bytes := by
  unfold InSpan spanRange
  rw [hk.addr, hk.pages]

theorem CarvingOk.covers {c : CentralCache} {regions : List Range} {w : Nat → Option Slot} {k : Carving}
    (hk : CarvingOk c regions w k) {a : Nat} (ha : InSpan (c.spanTrackers k.tracker) a) :
    (c.spanTrackers k.tracker).Covers a := by
  refine ⟨?_, ?_, ha.1, ha.2⟩
  · rw [hk.addr]
    exact Nat.pos_iff_ne_zero.mp hk.pos
  · intro h
    have hbytes := span_bytes_pos k.index k.start
    unfold spanRange at hbytes
    rw [← hk.pages, h, Nat.zero_mul] at hbytes
    exact absurd hbytes (Nat.lt_irrefl 0)

/-- **The tracker found is the one of the span.** -/
theorem Ok.getSpanTracker_iff {s : State} {w : Nat → Option Slot} (hi : Ok s w) {k : Carving}
    (hk : k ∈ s.carvings) (a : Nat) : s.central.getSpanTracker a = some k.tracker ↔
      k.start ≤ a ∧ a < k.start + (spanRange k.index k.start).bytes := by
  have hok := hi.carvings hk
  rw [← hok.inSpan a]
  constructor
  · exact fun h => (getSpanTracker_some h).2
  · intro ha
    -- some tracker covers the address, and no other span than this one reaches it
    have hsome : (s.central.getSpanTracker a).isSome := by
      unfold CentralCache.getSpanTracker
      rw [List.find?_isSome]
      exact ⟨k.tracker, List.mem_range.mpr hok.below, decide_eq_true (hok.covers ha)⟩
    obtain ⟨t, ht⟩ := Option.isSome_iff_exists.mp hsome
    obtain ⟨hlt, hin⟩ := getSpanTracker_some ht
    obtain ⟨k', hk', rfl⟩ := hi.covered hlt
    rcases hi.apart hk hk' with rfl | hap
    · exact ht
    · have h₁ := (hok.inSpan a).mp ha
      have h₂ := ((hi.carvings hk').inSpan a).mp hin
      have h₃ : k.start + (spanRange k.index k.start).bytes ≤ k'.start ∨
          k'.start + (spanRange k'.index k'.start).bytes ≤ k.start := hap.2
      omega

/-! ## 4. `fetchRange` finds a block -/

theorem takeHead_sameSpans (c : CentralCache) (m : Memory) (index result : Nat) :
    SameSpans c (takeHead c m index result).1 := by
  have hset : SameSpans c (c.setHead index (m.word result)) := .of_trackers rfl rfl
  unfold takeHead
  dsimp only
  split
  · exact hset
  · exact hset.trans (SameSpans.setFreeCount ..)

theorem Ok.head {s : State} {w : Nat → Option Slot} (hi : Ok s w) {index : Nat}
    (h : s.central.centralFreeList index ≠ 0) :
    w (s.central.centralFreeList index) = some ⟨index, .free none⟩ :=
  onList_eq_some.mp (hi.lists.place_head (k := (none, index)) h)

theorem Ok.take {s : State} {w : Nat → Option Slot} (hi : Ok s w) {index : Nat}
    (hhead : s.central.centralFreeList index ≠ 0) :
    Ok { s with
        central := (takeHead s.central s.mem index (s.central.centralFreeList index)).1
        mem := (takeHead s.central s.mem index (s.central.centralFreeList index)).2
        held := (index, s.central.centralFreeList index) :: s.held }
      (moveTo w (s.central.centralFreeList index) index (.inHand 0)) := by
  have ha := hi.head hhead
  have hmem := takeHead_mem s.central s.mem index (s.central.centralFreeList index)
  have hlist := takeHead_centralFreeList s.central s.mem index (s.central.centralFreeList index)
  refine hi.move (sameClasses_moveTo ha _) ?_ (takeHead_sameSpans ..) rfl ?_ ?_
  · dsimp only
    rw [hmem]
    rfl
  · dsimp only
    rw [onList_moveTo, hmem, heads_central hlist]
    refine hi.lists.pop (k := (none, index)) hhead ?_
    exact fun c j _ hc => Memory.store_other hc ..
  · intro i a h
    rcases List.mem_cons.mp h with h | h
    · obtain ⟨rfl, rfl⟩ := Prod.mk.inj h
      exact moveTo_same ..
    · have hw := hi.held h
      rw [moveTo_other]
      · exact hw
      · rintro rfl
        rw [ha] at hw
        exact absurd hw (by simp)

/-! ## 5. `fetchRange` cuts up a span -/

/-- How the table of trackers has grown. -/
structure Published (c c' : CentralCache) (index start : Nat) : Prop where
  le : c.spanCount ≤ c'.spanCount
  kept : ∀ {t}, t < c.spanCount → c'.spanTrackers t = c.spanTrackers t
  covered : ∀ {t}, c.spanCount ≤ t → t < min c'.spanCount TRACKERS →
    newCarving c index start = [⟨t, index, start⟩]
  tracker : ∀ {k}, k ∈ newCarving c index start →
    k = ⟨c.spanCount, index, start⟩ ∧ c.spanCount < min c'.spanCount TRACKERS ∧
      ∃ n, c'.spanTrackers c.spanCount
        = ⟨start, spanPages (blockSize index), blockNum (blockSize index), n⟩

theorem carve_published {c c' : CentralCache} {m m' : Memory} {index start : Nat}
    (h : carve c m index start = (c', m')) : Published c c' index start := by
  unfold carve at h
  dsimp only at h
  split at h
  · next hn =>
    obtain ⟨rfl, -⟩ := Prod.mk.inj h
    unfold CentralCache.publish
    dsimp only
    split
    · next hlt =>
      have hlt' : c.spanCount < TRACKERS := hlt
      have hnew : newCarving c index start = [⟨c.spanCount, index, start⟩] := if_pos ⟨hn, hlt'⟩
      refine ⟨Nat.le_succ _, fun ht => Function.update_of_ne (Nat.ne_of_lt ht) .., ?_, ?_⟩
      · intro t hle ht
        have ht' : t < min (c.spanCount + 1) TRACKERS := ht
        obtain rfl : t = c.spanCount := by omega
        exact hnew
      · intro k hk
        rw [hnew, List.mem_singleton] at hk
        exact ⟨hk, lt_min (Nat.lt_succ_self _) hlt', _, Function.update_self ..⟩
    · next hlt =>
      have hlt' : ¬ c.spanCount < TRACKERS := hlt
      refine ⟨Nat.le_succ _, fun _ => rfl, ?_, ?_⟩
      · intro t hle ht
        have ht' : t < min (c.spanCount + 1) TRACKERS := ht
        omega
      · intro k hk
        rw [newCarving, if_neg fun h => hlt' h.2] at hk
        exact absurd hk List.not_mem_nil
  · next hn =>
    obtain ⟨rfl, -⟩ := Prod.mk.inj h
    refine ⟨Nat.le_refl _, fun _ => rfl, ?_, ?_⟩
    · intro t hle ht
      exact absurd (Nat.lt_of_lt_of_le ht (Nat.min_le_left ..)) (Nat.not_lt.mpr hle)
    · intro k hk
      rw [newCarving, if_neg fun h => hn h.1] at hk
      exact absurd hk List.not_mem_nil

theorem carved_whole (w : Nat → Option Slot) {index start tid j : Nat}
    (hj : j < blockNum (blockSize index)) :
    ∃ p, carved w index start tid (blockAt start (blockSize index) j) = some ⟨index, p⟩ := by
  cases j with
  | zero =>
    rw [blockAt_zero]
    exact ⟨_, if_pos rfl⟩
  | succ j =>
    exact ⟨_, carved_rest (mem_restBlocks.mpr ⟨j + 1, Nat.le_add_left 1 j, hj, rfl⟩)⟩

/-- The carvings there were, when a span apart from theirs has been cut up. -/
theorem CarvingOk.grow {c c' : CentralCache} {regions regions' : List Range} {w : Nat → Option Slot}
    {k : Carving} {index start : Nat} (hk : CarvingOk c regions w k) (hp : Published c c' index start)
    (hsub : ∀ r ∈ regions, r ∈ regions')
    (hap : (spanRange k.index k.start).Apart (spanRange index start))
    (hne : ∀ {a x}, w a = some x → ∀ j, j < blockNum (blockSize index) →
      a ≠ blockAt start (blockSize index) j) :
    CarvingOk c' regions' (carved w index start 0) k := by
  have hlt : k.tracker < c.spanCount := Nat.lt_of_lt_of_le hk.below (Nat.min_le_left ..)
  have hbelow := hk.below
  have hle := hp.le
  refine ⟨by omega, ?_, ?_, ?_, hk.pos, hsub _ hk.region, ?_, ?_⟩
  · rw [hp.kept hlt]
    exact hk.addr
  · rw [hp.kept hlt]
    exact hk.pages
  · rw [hp.kept hlt]
    exact hk.count
  · intro j hj
    obtain ⟨p, h⟩ := hk.whole hj
    exact ⟨p, (carved_old (hne h)).trans h⟩
  · intro a x ha h₁ h₂
    rcases carved_cases ha with ⟨j, hj, rfl, -⟩ | ha
    · -- a block of the new span is not in this one
      have hin := blockAt_inside start hj
      have hap' : k.start + (spanRange k.index k.start).bytes ≤ start ∨
          start + (spanRange index start).bytes ≤ k.start := hap
      have := blockSize_pos index
      omega
    · exact hk.tiled ha h₁ h₂

/-- **A new span**, straight from `mmap`. -/
theorem Ok.carve {s : State} {w : Nat → Option Slot} (hi : Ok s w) {index start : Nat}
    {p : PageCache} {c : CentralCache} {m : Memory} (hempty : s.central.centralFreeList index = 0)
    (hfresh : s.mem.Fresh (spanRange index start))
    (h : Pool.carve s.central
      { word := fun x =>
          if start ≤ x ∧ x < start + (spanRange index start).bytes then 0 else s.mem.word x
        regions := spanRange index start :: s.mem.regions } index start = (c, m)) :
    Ok { mem := m
         pages := p
         central := c
         held := (index, start) :: s.held
         carvings := newCarving s.central index start ++ s.carvings } (carved w index start 0) := by
  have hpos : 0 < start := hfresh.1
  have hzero : (if start ≤ start ∧ start < start + (spanRange index start).bytes then 0
      else s.mem.word start) = 0 :=
    if_pos ⟨Nat.le_refl _, Nat.lt_add_of_pos_right (span_bytes_pos index start)⟩
  obtain ⟨hreg, -, hword, head, hlist, hchain⟩ := carve_spec h hpos hempty hzero
  have hpub := carve_published h
  have hsub : ∀ r ∈ s.mem.regions, r ∈ spanRange index start :: s.mem.regions :=
    fun r hr => List.mem_cons_of_mem _ hr
  have hap : ∀ {a x}, w a = some x → (x.range a).Apart (spanRange index start) :=
    fun ha => hi.blocks.apart_fresh hfresh ha
  -- the blocks there were are none of the new ones
  have hne : ∀ {a x}, w a = some x → ∀ j, j < blockNum (blockSize index) →
      a ≠ blockAt start (blockSize index) j := by
    intro a x ha
    exact ne_blockAt (hap ha) (blockSize_pos x.cls)
  have hold : ∀ {k}, k ∈ s.carvings → (spanRange k.index k.start).Apart (spanRange index start) :=
    fun hk => Range.Apart.symm (hfresh.2.2 _ (hi.carvings hk).region)
  refine ⟨?_, ?_, ?_, ?_, ?_, ?_⟩
  · show Blocks m.regions _
    rw [hreg]
    have hpage : start % 4096 = 0 := hfresh.2.1
    exact (hi.blocks.mono hsub).carved List.mem_cons_self hpos (by omega) hap
  · dsimp only
    rw [heads_central hlist]
    exact lists_carved (hi.blocks.lists_zeroed hfresh hi.lists) hempty hne hword hchain
  · intro i a hm
    rcases List.mem_cons.mp hm with hm | hm
    · obtain ⟨rfl, rfl⟩ := Prod.mk.inj hm
      exact if_pos rfl
    · exact (carved_old (hne (hi.held hm))).trans (hi.held hm)
  · intro k hk
    dsimp only
    rw [hreg]
    rcases List.mem_append.mp hk with hk | hk
    · obtain ⟨rfl, hlt, n, htr⟩ := hpub.tracker hk
      refine ⟨hlt, ?_, ?_, ?_, hpos, List.mem_cons_self, carved_whole w, ?_⟩
      · rw [htr]
      · rw [htr]
      · rw [htr]
      · intro a x ha h₁ h₂
        rcases carved_cases ha with ⟨j, hj, rfl, -⟩ | ha
        · exact ⟨j, hj, rfl⟩
        · have hap' : a + blockSize x.cls ≤ start ∨ start + (spanRange index start).bytes ≤ a := hap ha
          have := blockSize_pos x.cls
          dsimp only at h₁ h₂
          omega
    · exact (hi.carvings hk).grow hpub hsub (hold hk) hne
  · intro t ht
    by_cases hlt : t < s.central.spanCount
    · have ht' : t < min c.spanCount TRACKERS := ht
      obtain ⟨k, hk, rfl⟩ := hi.covered (t := t) (by omega)
      exact ⟨k, List.mem_append_right _ hk, rfl⟩
    · refine ⟨⟨t, index, start⟩, List.mem_append_left _ ?_, rfl⟩
      rw [hpub.covered (Nat.not_lt.mp hlt) ht]
      exact List.mem_singleton_self _
  · -- the new tracker is above the old ones, and its span apart from theirs
    have hnew : ∀ {k k'}, k ∈ newCarving s.central index start → k' ∈ s.carvings → k.Apart k' := by
      intro k k' hk hk'
      obtain ⟨rfl, -⟩ := hpub.tracker hk
      refine ⟨?_, Range.Apart.symm (hold hk')⟩
      have hbelow := (hi.carvings hk').below
      dsimp only
      omega
    intro k k' hk hk'
    rcases List.mem_append.mp hk with hk | hk
    · rcases List.mem_append.mp hk' with hk' | hk'
      · exact Or.inl ((hpub.tracker hk).1.trans (hpub.tracker hk').1.symm)
      · exact Or.inr (hnew hk hk')
    · rcases List.mem_append.mp hk' with hk' | hk'
      · exact Or.inr (hnew hk' hk).symm
      · exact hi.apart hk hk'

/-! ## 6. `returnRange` -/

/-- The state when the returned blocks are on the list and the trigger is checked. -/
def afterLink (s : State) (start size index : Nat) : State :=
  { s with
    mem := (linked s start size index).mem
    pages := (linked s start size index).pages
    central := (linked s start size index).central
    held := s.held.filter fun e => ¬ (e.1 = index ∧ e.2 ∈ returned s start size index) }

theorem Ok.link {s : State} {w : Nat → Option Slot} (hi : Ok s w) {start size index : Nat}
    (hmay : MayReturn s start size index) :
    Ok (afterLink s start size index) (placeAll w (returned s start size index) index (.free none)) := by
  have hret : ∀ a ∈ returned s start size index, w a = some ⟨index, .inHand 0⟩ :=
    fun a ha => hi.held (hmay.2 a ha)
  have hoff : ∀ a ∈ returned s start size index, onList w a = none := by
    intro a ha
    unfold onList
    rw [hret a ha]
    rfl
  have hlast : lastBlock s.mem (size / blockSize index - 1) start ∈ returned s start size index :=
    lastBlock_mem
  have hword : ∀ a, a ≠ lastBlock s.mem (size / blockSize index - 1) start →
      (afterLink s start size index).mem.word a = s.mem.word a := fun a ha => Memory.store_other ha ..
  have hlisted : ∀ a j, onList w a = some j →
      (afterLink s start size index).mem.word a = s.mem.word a := by
    intro a j ha
    refine hword a ?_
    rintro rfl
    rw [hoff _ hlast] at ha
    exact absurd ha (by simp)
  refine hi.move (sameClasses_placeAll (fun a ha => ⟨_, hret a ha⟩) _) rfl (.of_trackers rfl rfl) rfl
    ?_ ?_
  · have hheads : heads (afterLink s start size index).central (fun _ => {})
        = Function.update (heads s.central fun _ => {}) (none, index) start := heads_central rfl
    rw [hheads]
    obtain ⟨old, hc, hmem⟩ := hi.lists (none, index)
    have hc' : Chain 0 (afterLink s start size index).mem.word (s.central.centralFreeList index) old :=
      hc.congr fun a ha => hlisted a _ ((hmem a).mp ha)
    have hchain := rangeBlocks_chain hmay.1 (fun b hb => hi.blocks.pos (hret b hb))
      (fun b _ hb => hword b hb) (Memory.store_same ..) hc'
    refine hi.lists.replace hchain ?_ ?_ fun a j _ ha => hlisted a j ha
    · intro a
      rw [onList_placeAll, List.mem_append, hmem a]
      by_cases ha : a ∈ returned s start size index
      · rw [if_pos ha]
        exact ⟨fun _ => rfl, fun _ => Or.inl ha⟩
      · rw [if_neg ha]
        exact ⟨fun h => h.resolve_left ha, Or.inr⟩
    · intro a j hj
      rw [onList_placeAll]
      split
      · next ha =>
        rw [hoff a ha]
        exact ⟨fun h => absurd (Option.some.inj h).symm hj, fun h => absurd h (by simp)⟩
      · exact Iff.rfl
  · intro i a h
    obtain ⟨h, hnot⟩ := List.mem_filter.mp h
    have hw := hi.held h
    have hn : a ∉ returned s start size index := by
      intro ha
      have h' := hret a ha
      rw [hw, Option.some.injEq, Slot.mk.injEq] at h'
      exact (of_decide_eq_true hnot) ⟨h'.1, ha⟩
    exact (if_neg hn).trans hw

/-- The list a delayed return goes through is the list of the class. -/
theorem Ok.mem_walk {s : State} {w : Nat → Option Slot} (hi : Ok s w) {index rounds : Nat}
    {blocks : List Nat} (hw : walk 0 s.mem.word rounds (s.central.centralFreeList index) = some blocks)
    (a : Nat) : a ∈ blocks ↔ w a = some ⟨index, .free none⟩ := by
  rw [← (walk_chain hw).onList_iff, ← onList_eq_some]
  exact hi.lists.onList_iff (k := (none, index))

theorem performDelayedReturn_cases {s s' : Cache} {index rounds : Nat} {later : Int}
    {order : List Nat} {es : List Event}
    (h : performDelayedReturn s index later order rounds = some (s', es)) :
    ∃ blocks, walk 0 s.mem.word rounds (s.central.centralFreeList index) = some blocks ∧
      IsOrder s.central blocks order ∧
      es = .scan index blocks ::
        (order.filter (Due s.central (spanFreeCount s.central blocks))).map .gaveBack ∧
      Chain 0 s'.mem.word (s'.central.centralFreeList index)
        (without s.central (order.filter (Due s.central (spanFreeCount s.central blocks))) blocks) ∧
      (∀ i, i ≠ index → s'.central.centralFreeList i = s.central.centralFreeList i) ∧
      (∀ a, a ∉ blocks → s'.mem.word a = s.mem.word a) ∧ s'.mem.regions = s.mem.regions ∧
      SameSpans s.central s'.central := by
  unfold performDelayedReturn at h
  dsimp only at h
  split at h
  · exact absurd h (by simp)
  · next blocks hw =>
    split at h
    · next hord =>
      split at h
      · exact absurd h (by simp)
      · next s₁ es₁ hall =>
        simp only [Option.some.injEq, Prod.mk.injEq] at h
        obtain ⟨rfl, rfl⟩ := h
        obtain ⟨hes, hchain, hother, hword, hreg, hsame⟩ := updateAll_spec hall hord.1 (walk_chain hw)
        refine ⟨blocks, hw, hord, by rw [hes]; rfl, hchain, hother, hword, hreg, ?_⟩
        exact ⟨hsame.count, hsame.addr, hsame.pages, hsame.blocks⟩
    · exact absurd h (by simp)

/-- The blocks of the spans given back are gone from the list. -/
theorem Ok.delayed {s : State} {w : Nat → Option Slot} (hi : Ok s w) {index rounds : Nat} {later : Int}
    {order : List Nat} {l : Cache} {es : List Event}
    (h : performDelayedReturn ⟨s.mem, s.pages, s.central⟩ index later order rounds = some (l, es)) :
    ∃ w', Ok { s with mem := l.mem, pages := l.pages, central := l.central } w' := by
  obtain ⟨blocks, hw, -, -, hchain, hother, hword, hreg, hsame⟩ := performDelayedReturn_cases h
  have hmem := hi.mem_walk hw
  obtain ⟨rest, hrest⟩ : ∃ rest, rest = without s.central
    (order.filter (Due s.central (spanFreeCount s.central blocks))) blocks := ⟨_, rfl⟩
  have hsub : ∀ a ∈ rest, a ∈ blocks := by
    intro a ha
    rw [hrest] at ha
    exact List.mem_of_mem_filter ha
  have hlist : ∀ {a}, a ∈ blocks → onList w a = some (none, index) :=
    fun ha => onList_eq_some.mpr ((hmem _).mp ha)
  refine ⟨placeAll w (blocks.filter (· ∉ rest)) index .gone, hi.move
    (sameClasses_placeAll (fun a ha => ⟨_, (hmem a).mp (List.mem_of_mem_filter ha)⟩) _) hreg hsame rfl
    ?_ ?_⟩
  · have hheads : heads l.central (fun _ => {})
        = Function.update (heads s.central fun _ => {}) (none, index) (l.central.centralFreeList index) := by
      refine heads_central (funext fun i => ?_)
      by_cases hne : i = index
      · rw [hne, Function.update_self]
      · rw [Function.update_of_ne hne]
        exact hother i hne
    dsimp only
    rw [hheads]
    rw [← hrest] at hchain
    refine hi.lists.replace hchain ?_ ?_ ?_
    · intro a
      rw [onList_placeAll]
      split
      · next ha =>
        have hnot : a ∉ rest := of_decide_eq_true (List.mem_filter.mp ha).2
        exact ⟨fun h => absurd h hnot, fun h => absurd h (by simp [Slot.list])⟩
      · next ha =>
        refine ⟨fun h => hlist (hsub a h), fun h => ?_⟩
        by_contra hnot
        exact ha (List.mem_filter.mpr ⟨(hmem a).mpr (onList_eq_some.mp h), decide_eq_true hnot⟩)
    · intro a j hj
      rw [onList_placeAll]
      split
      · next ha =>
        rw [hlist (List.mem_of_mem_filter ha)]
        exact ⟨fun h => absurd h (by simp [Slot.list]), fun h => absurd (Option.some.inj h).symm hj⟩
      · exact Iff.rfl
    · intro a j hj ha
      refine hword a fun hb => hj ?_
      rw [hlist hb] at ha
      exact (Option.some.inj ha).symm
  · intro i a h
    have hin := hi.held h
    refine (if_neg fun ha => ?_).trans hin
    have hfree := (hmem a).mp (List.mem_of_mem_filter ha)
    rw [hin] at hfree
    exact absurd hfree (by simp)

/-! ## 7. Every step -/

/-- A span comes from `mmap`: the page cache has none to offer. -/
def FreshSpan (s : State) : Label → Prop
  | .fetchRange index _ => index < FREE_LIST_SIZE → s.central.centralFreeList index = 0 →
      s.pages.lowerBound (spanPages (blockSize index)) = none
  | _ => True

instance (s : State) : ∀ l, Decidable (FreshSpan s l)
  | .fetchRange _ _ => inferInstanceAs (Decidable (_ → _ → _ = none))
  | .returnRange _ _ _ _ _ _ _ => isTrue trivial
  | .write _ _ _ _ => isTrue trivial

/-- What a fetch does: nothing, take a block off the list, or cut up a span. -/
theorem fetchRange_cases {s s' : State} {index : Nat} {answer : Option Nat}
    (h : fetchRange s index answer = some s') :
    (FREE_LIST_SIZE ≤ index ∧ s' = s) ∨
    (index < FREE_LIST_SIZE ∧ s.central.centralFreeList index ≠ 0 ∧
      s' = { s with
        central := (takeHead s.central s.mem index (s.central.centralFreeList index)).1
        mem := (takeHead s.central s.mem index (s.central.centralFreeList index)).2
        held := (index, s.central.centralFreeList index) :: s.held }) ∨
    (index < FREE_LIST_SIZE ∧ s.central.centralFreeList index = 0 ∧ ∃ p m start,
      s.pages.allocateSpan s.mem (spanPages (blockSize index)) answer = some (p, m, start) ∧
      ((start = 0 ∧ s' = { s with pages := p, mem := m }) ∨
        (start ≠ 0 ∧
          s' =
            { mem := (Pool.carve s.central m index start).2
              pages := p
              central := (Pool.carve s.central m index start).1
              held := (index, start) :: s.held
              carvings := newCarving s.central index start ++ s.carvings }))) := by
  unfold Calls.fetchRange at h
  split at h
  · next hindex => exact Or.inl ⟨hindex, (Option.some.inj h).symm⟩
  · next hindex =>
    have hlt := Nat.not_le.mp hindex
    dsimp only at h
    split at h
    · next hhead => exact Or.inr (Or.inl ⟨hlt, hhead, (Option.some.inj h).symm⟩)
    · next hhead =>
      refine Or.inr (Or.inr ⟨hlt, not_not.mp hhead, ?_⟩)
      split at h
      · exact absurd h (by simp)
      · next p m start hspan =>
        refine ⟨p, m, start, hspan, ?_⟩
        split at h
        · next h₀ => exact Or.inl ⟨h₀, (Option.some.inj h).symm⟩
        · next h₀ => exact Or.inr ⟨h₀, (Option.some.inj h).symm⟩

theorem Ok.fetchRange {s s' : State} {w : Nat → Option Slot} (hi : Ok s w) {index : Nat}
    {answer : Option Nat} (hfresh : FreshSpan s (.fetchRange index answer))
    (h : fetchRange s index answer = some s') : ∃ w', Ok s' w' := by
  rcases fetchRange_cases h with ⟨-, rfl⟩ | ⟨-, hhead, rfl⟩ | ⟨hlt, hempty, p, m, start, hspan, hcases⟩
  · exact ⟨w, hi⟩
  · exact ⟨_, hi.take hhead⟩
  · have hmmap := allocateSpan_mmap (hfresh hlt hempty) hspan
    rw [mmapSize_span hlt start] at hmmap
    rcases hcases with ⟨h₀, rfl⟩ | ⟨h₀, rfl⟩
    · rcases hmmap with ⟨-, -, rfl, -⟩ | ⟨-, -, hf, -⟩
      · exact ⟨w, hi.move (.refl w) rfl (.refl _) rfl hi.lists hi.held⟩
      · exact absurd h₀ (Nat.pos_iff_ne_zero.mp hf.1)
    · rcases hmmap with ⟨h', -⟩ | ⟨-, -, hf, rfl, -⟩
      · exact absurd h' h₀
      · exact ⟨_, hi.carve hempty hf rfl⟩

/-- What a return does, by its trigger. -/
theorem returnRange_cases {s s' : State} {start size index rounds : Nat} {now later : Int}
    {order : List Nat} {es : List Event}
    (h : returnRange s start size index now later order rounds = some (s', es)) :
    (¬ (start ≠ 0 ∧ index < FREE_LIST_SIZE) ∧ s' = s ∧ es = []) ∨
      (start ≠ 0 ∧ index < FREE_LIST_SIZE ∧
        ((triggered (linked s start size index).central index now = false ∧
            s' = afterLink s start size index ∧ es = []) ∨
          (triggered (linked s start size index).central index now = true ∧
            ∃ l, performDelayedReturn (linked s start size index) index later order rounds = some (l, es) ∧
              s' = { afterLink s start size index with
                mem := l.mem, pages := l.pages, central := l.central }))) := by
  unfold returnRange at h
  split at h
  · next hno =>
    simp only [Option.some.injEq, Prod.mk.injEq] at h
    refine Or.inl ⟨fun hyes => ?_, h.1.symm, h.2.symm⟩
    rcases hno with hno | hno
    · exact hyes.1 hno
    · exact absurd hyes.2 (Nat.not_lt.mpr hno)
  · next hyes =>
    obtain ⟨hstart, hindex⟩ := not_or.mp hyes
    refine Or.inr ⟨hstart, Nat.not_le.mp hindex, ?_⟩
    dsimp only at h
    split at h
    · next ht =>
      split at h
      · exact absurd h (by simp)
      · next l es' hp =>
        simp only [Option.some.injEq, Prod.mk.injEq] at h
        obtain ⟨rfl, rfl⟩ := h
        exact Or.inr ⟨ht, l, hp, rfl⟩
    · next ht =>
      simp only [Option.some.injEq, Prod.mk.injEq] at h
      obtain ⟨rfl, rfl⟩ := h
      exact Or.inl ⟨by simpa using ht, rfl, rfl⟩

/-- A return that is made is a return of blocks held. -/
theorem step_returnRange {s s' : State} {start size index rounds : Nat} {now later : Int}
    {order : List Nat} {es : List Event}
    (h : step s (.returnRange start size index now later order rounds) = some (s', es)) :
    (start ≠ 0 → index < FREE_LIST_SIZE → MayReturn s start size index) ∧
      returnRange s start size index now later order rounds = some (s', es) := by
  simp only [step] at h
  split at h
  · next hc =>
    refine ⟨fun hstart hindex => ?_, h⟩
    rcases hc with hc | hc | hc
    · exact absurd hc hstart
    · exact absurd hindex (Nat.not_lt.mpr hc)
    · exact hc
  · exact absurd h (by simp)

/-- **One step keeps every tracked span whole.** -/
theorem Ok.step {s s' : State} {w : Nat → Option Slot} {l : Label} {es : List Event} (hi : Ok s w)
    (hfresh : FreshSpan s l) (h : step s l = some (s', es)) : ∃ w', Ok s' w' := by
  cases l with
  | fetchRange index answer =>
    simp only [Calls.step] at h
    obtain ⟨s₁, hs₁, heq⟩ := Option.map_eq_some_iff.mp h
    obtain ⟨rfl, -⟩ := Prod.mk.inj heq
    exact hi.fetchRange hfresh hs₁
  | returnRange start size index now later order rounds =>
    obtain ⟨hmay, hret⟩ := step_returnRange h
    rcases returnRange_cases hret with ⟨-, rfl, -⟩ | ⟨hstart, hindex, hcases⟩
    · exact ⟨w, hi⟩
    · have hlink := hi.link (hmay hstart hindex)
      rcases hcases with ⟨-, rfl, -⟩ | ⟨-, l, hp, rfl⟩
      · exact ⟨_, hlink⟩
      · exact hlink.delayed hp
  | write index block a v =>
    simp only [Calls.step] at h
    split at h
    · next hc =>
      obtain ⟨hheld, hle, hlt⟩ := hc
      simp only [Option.some.injEq, Prod.mk.injEq] at h
      obtain ⟨rfl, -⟩ := h
      refine ⟨w, hi.move (.refl w) rfl (.refl _) rfl ?_ hi.held⟩
      -- a block on a list is not held
      have hw := hi.held hheld
      refine hi.lists.frame fun c k hc => Memory.store_other ?_ ..
      have hfree := onList_eq_some.mp hc
      have hne : c ≠ block := by
        rintro rfl
        rw [hw] at hfree
        exact absurd hfree (by simp)
      exact hi.blocks.start_ne hfree hw hne hle hlt
    · exact absurd h (by simp)

end Calls
end Pool
end EpollChat
