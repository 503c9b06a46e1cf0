import EpollChat.Proof.Pool.Spans

/-!
# One tracker for each block

A tracker stays in the table when its span has gone back to the page cache. If the page cache
then hands the same pages out again, the new span gets a second tracker, or none if it is one
block, and `getSpanTracker` finds the old one. `History` keeps every span that was cut up, the
latest first, so that a block's span is the first one that has its address.

As long as every span comes from `mmap`, no address is in two of them.
-/

namespace EpollChat
namespace Pool
namespace Calls

open Lib Machine

/-! ## 1. The spans cut up so far -/

structure CutSpan where
  index : Nat
  start : Nat
deriving DecidableEq, Repr

def CutSpan.range (k : CutSpan) : Range := spanRange k.index k.start

def CutSpan.Has (k : CutSpan) (a : Nat) : Prop := k.range.start ≤ a ∧ a < k.range.start + k.range.bytes

instance (k : CutSpan) (a : Nat) : Decidable (k.Has a) := inferInstanceAs (Decidable (_ ∧ _))

/-- The span a call cuts up. -/
def cutBy (s : State) : Label → List CutSpan
  | .fetchRange index answer =>
      if FREE_LIST_SIZE ≤ index ∨ s.central.centralFreeList index ≠ 0 then []
      else
        match s.pages.allocateSpan s.mem (spanPages (blockSize index)) answer with
        | none => []
        | some (_, _, start) => if start = 0 then [] else [⟨index, start⟩]
  | _ => []

structure History where
  state : State := {}
  spans : List CutSpan := []

def stepHistory (h : History) (l : Label) : Option (History × List Event) :=
  (step h.state l).map fun q => (⟨q.1, cutBy h.state l ++ h.spans⟩, q.2)

def currentSpan (spans : List CutSpan) (a : Nat) : Option CutSpan := spans.find? fun k => decide (k.Has a)

def trackerRange (t : SpanTracker) : Range := ⟨t.spanAddr, t.numPages * PAGE_SIZE⟩

/-- The ranges of the trackers are disjoint, and the tracker found for a block on a list is the
    one of the span the block was cut from. -/
def OwnTracker (h : History) : Prop :=
  (∀ i j, i < min h.state.central.spanCount TRACKERS → j < min h.state.central.spanCount TRACKERS →
    i ≠ j → (trackerRange (h.state.central.spanTrackers i)).Apart
      (trackerRange (h.state.central.spanTrackers j))) ∧
  ∀ index a t, OnList 0 h.state.mem.word (h.state.central.centralFreeList index) a →
    h.state.central.getSpanTracker a = some t → ∃ k, currentSpan h.spans a = some k ∧
      (h.state.central.spanTrackers t).spanAddr = k.start ∧
      (h.state.central.spanTrackers t).numPages = spanPages (blockSize k.index) ∧
      (h.state.central.spanTrackers t).blockCount = blockNum (blockSize k.index)

/-! ## 2. The invariant -/

structure Recorded (h : History) : Prop where
  region : ∀ k ∈ h.spans, k.range ∈ h.state.mem.regions
  apart : ∀ {k k'}, k ∈ h.spans → k' ∈ h.spans → k = k' ∨ k.range.Apart k'.range
  tracked : ∀ c ∈ h.state.carvings, ⟨c.index, c.start⟩ ∈ h.spans

/-- Nothing is cut up, and nothing mapped. -/
theorem Recorded.same {h : History} (hi : Recorded h) {s' : State}
    (hreg : s'.mem.regions = h.state.mem.regions) (hcarv : s'.carvings = h.state.carvings) :
    Recorded ⟨s', h.spans⟩ := by
  refine ⟨?_, hi.apart, ?_⟩
  · show ∀ k ∈ h.spans, k.range ∈ s'.mem.regions
    rw [hreg]
    exact hi.region
  · show ∀ c ∈ s'.carvings, _
    rw [hcarv]
    exact hi.tracked

theorem Recorded.cut {h : History} (hi : Recorded h) {s' : State} {index start : Nat}
    (hfresh : h.state.mem.Fresh (spanRange index start))
    (hreg : s'.mem.regions = spanRange index start :: h.state.mem.regions)
    (hcarv : s'.carvings = newCarving h.state.central index start ++ h.state.carvings) :
    Recorded ⟨s', ⟨index, start⟩ :: h.spans⟩ := by
  refine ⟨?_, ?_, ?_⟩
  · intro k hk
    show k.range ∈ s'.mem.regions
    rw [hreg]
    rcases List.mem_cons.mp hk with rfl | hk
    · exact List.mem_cons_self
    · exact List.mem_cons_of_mem _ (hi.region k hk)
  · intro k k' hk hk'
    rcases List.mem_cons.mp hk with rfl | hk <;> rcases List.mem_cons.mp hk' with rfl | hk'
    · exact Or.inl rfl
    · exact Or.inr (hfresh.2.2 _ (hi.region k' hk'))
    · exact Or.inr (hfresh.2.2 _ (hi.region k hk)).symm
    · exact hi.apart hk hk'
  · intro c hc
    have hc : c ∈ s'.carvings := hc
    rw [hcarv] at hc
    rcases List.mem_append.mp hc with hc | hc
    · unfold newCarving at hc
      split at hc
      · rw [List.mem_singleton.mp hc]
        exact List.mem_cons_self
      · exact absurd hc List.not_mem_nil
    · exact List.mem_cons_of_mem _ (hi.tracked c hc)

theorem carve_regions (c : CentralCache) (m : Memory) (index start : Nat) :
    (carve c m index start).2.regions = m.regions := by
  have hlink : ∀ n, (linkBlocks m start (blockSize index) n).regions = m.regions := by
    intro n
    induction n with
    | zero => rfl
    | succ n ih => exact ih
  unfold carve
  dsimp only
  split
  · exact hlink _
  · rfl

theorem Recorded.step {h h' : History} {l : Label} {es : List Event} (hi : Recorded h)
    (hfresh : FreshSpan h.state l) (hs : stepHistory h l = some (h', es)) : Recorded h' := by
  obtain ⟨⟨s', es'⟩, hstep, heq⟩ := Option.map_eq_some_iff.mp hs
  obtain ⟨rfl, -⟩ := Prod.mk.inj heq
  dsimp only
  cases l with
  | fetchRange index answer =>
    obtain ⟨s₁, hs₁, heq⟩ := Option.map_eq_some_iff.mp hstep
    obtain ⟨rfl, -⟩ := Prod.mk.inj heq
    rcases fetchRange_cases hs₁ with
      ⟨hle, rfl⟩ | ⟨hlt, hhead, rfl⟩ | ⟨hlt, hempty, p, m, start, hspan, hcases⟩
    · rw [cutBy, if_pos (Or.inl hle)]
      exact hi.same rfl rfl
    · rw [cutBy, if_pos (Or.inr hhead)]
      refine hi.same ?_ rfl
      dsimp only
      rw [takeHead_mem]
      rfl
    · have hno : ¬ (FREE_LIST_SIZE ≤ index ∨ h.state.central.centralFreeList index ≠ 0) := by
        rintro (hle | hne)
        · omega
        · exact hne hempty
      have hmmap := allocateSpan_mmap (hfresh hlt hempty) hspan
      rw [mmapSize_span hlt start] at hmmap
      rw [cutBy, if_neg hno, hspan]
      dsimp only
      rcases hcases with ⟨h₀, rfl⟩ | ⟨h₀, rfl⟩
      · rw [if_pos h₀]
        rcases hmmap with ⟨-, -, rfl, -⟩ | ⟨-, -, hf, -⟩
        · exact hi.same rfl rfl
        · exact absurd h₀ (Nat.pos_iff_ne_zero.mp hf.1)
      · rw [if_neg h₀]
        rcases hmmap with ⟨h', -⟩ | ⟨-, -, hf, rfl, -⟩
        · exact absurd h' h₀
        · exact hi.cut hf (carve_regions ..) rfl
  | returnRange start size index now later order rounds =>
    rcases returnRange_cases (step_returnRange hstep).2 with
      ⟨-, rfl, -⟩ | ⟨-, -, ⟨-, rfl, -⟩ | ⟨-, l, hp, rfl⟩⟩
    · exact hi.same rfl rfl
    · exact hi.same rfl rfl
    · obtain ⟨blocks, -, -, -, -, -, -, hreg, -⟩ := performDelayedReturn_cases hp
      exact hi.same hreg rfl
  | write index block a v =>
    simp only [Calls.step] at hstep
    split at hstep
    · obtain ⟨rfl, -⟩ := Prod.mk.inj (Option.some.inj hstep)
      exact hi.same rfl rfl
    · exact absurd hstep (by simp)

/-! ## 3. The property -/

/-- An address is in one span only. -/
theorem Recorded.currentSpan_eq {h : History} (hi : Recorded h) {k : CutSpan} {a : Nat} (hk : k ∈ h.spans)
    (ha : k.Has a) : currentSpan h.spans a = some k := by
  have hsome : (currentSpan h.spans a).isSome := by
    unfold currentSpan
    rw [List.find?_isSome]
    exact ⟨k, hk, decide_eq_true ha⟩
  obtain ⟨k', hk'⟩ := Option.isSome_iff_exists.mp hsome
  have hfind : h.spans.find? (fun k => decide (k.Has a)) = some k' := hk'
  have ha' := List.find?_some hfind
  rw [decide_eq_true_eq] at ha'
  rcases hi.apart (List.mem_of_find?_eq_some hfind) hk with rfl | hap
  · exact hk'
  · obtain ⟨h₁, h₂⟩ := ha
    obtain ⟨h₃, h₄⟩ := ha'
    unfold Range.Apart at hap
    omega

theorem CarvingOk.trackerRange_eq {c : CentralCache} {regions : List Range} {w : Nat → Option Slot}
    {k : Carving} (hk : CarvingOk c regions w k) :
    trackerRange (c.spanTrackers k.tracker) = spanRange k.index k.start := by
  unfold trackerRange spanRange
  rw [hk.addr, hk.pages]

theorem Recorded.ownTracker {h : History} (hi : Recorded h) {w : Nat → Option Slot} (hok : Ok h.state w) :
    OwnTracker h := by
  constructor
  · intro i j hlt hlt' hne
    obtain ⟨k, hk, rfl⟩ := hok.covered hlt
    obtain ⟨k', hk', rfl⟩ := hok.covered hlt'
    rw [(hok.carvings hk).trackerRange_eq, (hok.carvings hk').trackerRange_eq]
    rcases hok.apart hk hk' with rfl | hap
    · exact absurd rfl hne
    · exact hap.2
  · intro index a t _ ht
    obtain ⟨hlt, hin⟩ := getSpanTracker_some ht
    obtain ⟨k, hk, rfl⟩ := hok.covered hlt
    have hc := hok.carvings hk
    exact ⟨⟨k.index, k.start⟩, hi.currentSpan_eq (hi.tracked k hk) ((hc.inSpan a).mp hin), hc.addr,
      hc.pages, hc.count⟩

/-- **Every block has one tracker, its own, in every run in which every span comes from `mmap`.** -/
theorem own_tracker_of_freshSpan {ls : List Label} {h : History} {τ : List Event}
    (hfresh : Meets stepHistory (fun h l => FreshSpan h.state l) {} ls)
    (hr : run stepHistory {} ls = some (h, τ)) : OwnTracker h := by
  have hinv := run_inv_of_meets (fun h _ => Recorded h ∧ ∃ w, Ok h.state w) ?_ (τ := [])
    ⟨⟨fun k hk => absurd hk List.not_mem_nil, fun hk => absurd hk List.not_mem_nil,
      fun c hc => absurd hc List.not_mem_nil⟩, _, Ok.start⟩ hfresh hr
  · obtain ⟨hi, w, hok⟩ := hinv
    exact hi.ownTracker hok
  · intro h τ l h' es hi hf hs
    obtain ⟨hi, w, hok⟩ := hi
    refine ⟨hi.step hf hs, ?_⟩
    obtain ⟨⟨s', es'⟩, hstep, heq⟩ := Option.map_eq_some_iff.mp hs
    obtain ⟨rfl, -⟩ := Prod.mk.inj heq
    exact hok.step hf hstep

/-- Two spans of the 8 KiB class, blocks of both on the list. -/
theorem own_tracker_of_freshSpan_twoSpans : ∃ h τ,
    run stepHistory {} [.fetchRange 1023 (some 4096), .fetchRange 1023 none, .fetchRange 1023 none,
      .fetchRange 1023 none, .fetchRange 1023 (some 40960), .returnRange 4096 8192 1023 0 0 [] 0] =
        some (h, τ) ∧
    h.spans = [⟨1023, 40960⟩, ⟨1023, 4096⟩] ∧ h.state.central.spanCount = 2 ∧
    h.state.central.centralFreeList 1023 = 4096 ∧ h.state.mem.word 4096 = 49152 ∧ OwnTracker h := by
  obtain ⟨⟨h, τ⟩, hr, hv⟩ := Option.map_eq_some_iff.mp (show (run stepHistory {}
    [.fetchRange 1023 (some 4096), .fetchRange 1023 none, .fetchRange 1023 none, .fetchRange 1023 none,
      .fetchRange 1023 (some 40960), .returnRange 4096 8192 1023 0 0 [] 0]).map
        (fun p => (p.1.spans, p.1.state.central.spanCount, p.1.state.central.centralFreeList 1023,
          p.1.state.mem.word 4096)) =
      some ([⟨1023, 40960⟩, ⟨1023, 4096⟩], 2, 4096, 49152) by decide +kernel)
  simp only [Prod.mk.injEq] at hv
  exact ⟨h, τ, hr, hv.1, hv.2.1, hv.2.2.1, hv.2.2.2, own_tracker_of_freshSpan (by decide +kernel) hr⟩

/-- A span of four blocks goes back and comes out again as eight: the second tracker overlaps
    the first, and a block of 4 KiB on the list is found under the one of the 8 KiB class. -/
def reissue : List Label :=
  [.fetchRange 1023 (some 4096), .fetchRange 1023 none, .fetchRange 1023 none, .fetchRange 1023 none,
    .returnRange 4096 8192 1023 0 0 [] 0, .returnRange 12288 8192 1023 0 0 [] 0,
    .returnRange 20480 8192 1023 0 0 [] 0, .returnRange 28672 8192 1023 1000 1000 [0] 4,
    .fetchRange 511 none]

theorem tracker_not_own : ∃ h τ, run stepHistory {} reissue = some (h, τ) ∧
    h.spans = [⟨511, 4096⟩, ⟨1023, 4096⟩] ∧ h.state.central.centralFreeList 511 = 8192 ∧
    h.state.central.getSpanTracker 8192 = some 0 ∧ (h.state.central.spanTrackers 0).blockCount = 4 ∧
    ¬ OwnTracker h := by
  obtain ⟨⟨h, τ⟩, hr, hv⟩ := Option.map_eq_some_iff.mp (show (run stepHistory {} reissue).map
    (fun p => (p.1.spans, p.1.state.central.centralFreeList 511, p.1.state.central.getSpanTracker 8192,
      (p.1.state.central.spanTrackers 0).blockCount)) =
      some ([⟨511, 4096⟩, ⟨1023, 4096⟩], 8192, some 0, 4) by decide +kernel)
  simp only [Prod.mk.injEq] at hv
  obtain ⟨hspans, hhead, htr, hcount⟩ := hv
  refine ⟨h, τ, hr, hspans, hhead, htr, hcount, fun hown => ?_⟩
  have hon : OnList 0 h.state.mem.word (h.state.central.centralFreeList 511) 8192 := by
    rw [hhead]
    exact .head (by decide)
  obtain ⟨k, hk, -, -, hblocks⟩ := hown.2 511 8192 0 hon htr
  rw [hspans] at hk
  obtain rfl : (⟨511, 4096⟩ : CutSpan) = k := Option.some.inj hk
  rw [hcount] at hblocks
  exact absurd hblocks (by decide)

end Calls
end Pool
end EpollChat
