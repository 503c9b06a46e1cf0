import EpollChat.Proof.Pool.Spans

/-!
# When a span goes back

`updateSpanFreeCount` adds the blocks it finds on the list to a counter that already has them:
the counter starts at the blocks left on the list, goes down by one for each block fetched, and
is never set back. The sum is the number of blocks on the list only when the counter stands at
0. Then a span is given back when its last block has come in, and not before.

`Settled` says it of the state before the delayed return: a tracker whose blocks on the list,
with or without its counter, make up the span has its counter at 0.
-/

namespace EpollChat
namespace Pool
namespace Calls

open Lib Machine

/-! ## 1. The property and its condition -/

def Carving.AllIn (k : Carving) (blocks : List Nat) : Prop :=
  ∀ j, j < blockNum (blockSize k.index) → blockAt k.start (blockSize k.index) j ∈ blocks

instance (k : Carving) (blocks : List Nat) : Decidable (k.AllIn blocks) :=
  inferInstanceAs (Decidable (∀ j, j < _ → _))

def Carving.NoneHeld (k : Carving) (held : List (Nat × Nat)) : Prop :=
  ∀ j, j < blockNum (blockSize k.index) → ∀ e ∈ held, e.2 ≠ blockAt k.start (blockSize k.index) j

/-- A span is given back only when all its blocks are on the list and none of them is held; and
    a delayed return that finds them all on the list gives it back. -/
def GivesBackRight (s : State) (l : Label) : Prop :=
  ∀ s' es, step s l = some (s', es) →
    (∀ t, .gaveBack t ∈ es → ∃ k ∈ s.carvings, k.tracker = t ∧
      ∃ blocks, .scan k.index blocks ∈ es ∧ k.AllIn blocks ∧ k.NoneHeld s'.held) ∧
    ∀ index blocks, .scan index blocks ∈ es → ∀ k ∈ s.carvings, k.index = index → k.AllIn blocks →
      .gaveBack k.tracker ∈ es

/-- With `n` blocks on the list, alone or with `freeCount`, the span counts as free only if
    `freeCount` is 0. -/
def SpanTracker.Settled (t : SpanTracker) (n : Nat) : Prop :=
  n = t.blockCount ∨ t.freeCount + UInt64.ofNat n = UInt64.ofNat t.blockCount → t.freeCount = 0

instance (t : SpanTracker) (n : Nat) : Decidable (SpanTracker.Settled t n) :=
  inferInstanceAs (Decidable (_ ∨ _ → _))

/-- Every tracker with blocks on the list is. -/
def CentralCache.Settled (c : CentralCache) (blocks : List Nat) : Prop :=
  ∀ t, 0 < spanFreeCount c blocks t → SpanTracker.Settled (c.spanTrackers t) (spanFreeCount c blocks t)

/-- Only trackers in use have blocks on the list. -/
instance (c : CentralCache) (blocks : List Nat) : Decidable (CentralCache.Settled c blocks) :=
  decidable_of_iff (∀ t, t < min c.spanCount TRACKERS → 0 < spanFreeCount c blocks t →
      SpanTracker.Settled (c.spanTrackers t) (spanFreeCount c blocks t)) <| by
    refine forall_congr' fun t => ⟨fun h ht => ?_, fun h _ => h⟩
    obtain ⟨a, -, ha⟩ := List.countP_pos_iff.mp ht
    exact h (getSpanTracker_some (of_decide_eq_true ha)).1 ht

/-- They all are when a delayed return begins. -/
def Settled (s : State) : Label → Prop
  | .returnRange start size index now _ _ rounds =>
      let l := linked s start size index
      start ≠ 0 → index < FREE_LIST_SIZE → triggered l.central index now = true →
        ∀ blocks ∈ walk 0 l.mem.word rounds (l.central.centralFreeList index),
          CentralCache.Settled l.central blocks
  | _ => True

instance (s : State) : ∀ l, Decidable (Settled s l)
  | .fetchRange _ _ => isTrue trivial
  | .write _ _ _ _ => isTrue trivial
  | .returnRange _ _ _ _ _ _ _ => inferInstanceAs (Decidable (_ → _ → _ → ∀ _ ∈ _, _))

/-! ## 2. Counting -/

theorem blockNum_le (index : Nat) : blockNum (blockSize index) ≤ 4096 := by
  have hsize : 8 ≤ blockSize index := by
    simp only [blockSize, ALIGNMENT]
    omega
  refine Nat.div_le_of_le_mul ?_
  unfold spanPages
  split
  · simp only [SPAN_PAGES, PAGE_SIZE]
    omega
  · simp only [PAGE_SIZE]
    omega

/-- The counter is 0 exactly if adding it changes nothing. -/
theorem settled_iff {t : SpanTracker} {n : Nat} (hn : n ≤ t.blockCount) (hb : t.blockCount ≤ 4096) :
    (t.freeCount + UInt64.ofNat n = UInt64.ofNat t.blockCount ↔ n = t.blockCount) ↔
      SpanTracker.Settled t n := by
  constructor
  · intro h hor
    have heq : n = t.blockCount := by
      rcases hor with hor | hor
      · exact hor
      · exact h.mp hor
    have hdue := h.mpr heq
    rw [heq] at hdue
    exact UInt64.add_eq_right.mp hdue
  · intro h
    constructor
    · intro hdue
      rw [h (Or.inr hdue), UInt64.zero_add] at hdue
      have htoNat := congrArg UInt64.toNat hdue
      rw [UInt64.toNat_ofNat_of_lt' (by simp [UInt64.size]; omega),
        UInt64.toNat_ofNat_of_lt' (by simp [UInt64.size]; omega)] at htoNat
      exact htoNat
    · intro heq
      rw [h (Or.inl heq), UInt64.zero_add, heq]

theorem IsOrder.mem_iff {c : CentralCache} {blocks order : List Nat} (h : IsOrder c blocks order)
    (t : Nat) : t ∈ order ↔ 0 < spanFreeCount c blocks t := by
  refine ⟨h.2.1 t, fun ht => ?_⟩
  obtain ⟨a, ha, hp⟩ := List.countP_pos_iff.mp ht
  exact h.2.2 a ha t (of_decide_eq_true hp)

section Walk

variable {s : State} {w : Nat → Option Slot} {index rounds : Nat} {blocks : List Nat}

/-- A tracker with blocks on the list stands for a carving of its class. -/
theorem Ok.carving_of_count (hi : Ok s w)
    (hw : walk 0 s.mem.word rounds (s.central.centralFreeList index) = some blocks) {t : Nat}
    (ht : 0 < spanFreeCount s.central blocks t) : ∃ k ∈ s.carvings, k.tracker = t ∧ k.index = index := by
  obtain ⟨a, ha, hp⟩ := List.countP_pos_iff.mp ht
  have htr := of_decide_eq_true hp
  obtain ⟨k, hk, rfl⟩ := hi.covered (getSpanTracker_some htr).1
  refine ⟨k, hk, rfl, ?_⟩
  have hfree := (hi.mem_walk hw a).mp ha
  obtain ⟨h₁, h₂⟩ := (hi.getSpanTracker_iff hk a).mp htr
  obtain ⟨j, hj, rfl⟩ := (hi.carvings hk).tiled hfree h₁ h₂
  obtain ⟨p, hp⟩ := (hi.carvings hk).whole hj
  rw [hp, Option.some.injEq, Slot.mk.injEq] at hfree
  exact hfree.1

/-- **The recount**: as many blocks as the span has means all of them. -/
theorem Ok.spanFreeCount_spec (hi : Ok s w)
    (hw : walk 0 s.mem.word rounds (s.central.centralFreeList index) = some blocks) {k : Carving}
    (hk : k ∈ s.carvings) :
    spanFreeCount s.central blocks k.tracker ≤ blockNum (blockSize k.index) ∧
      (spanFreeCount s.central blocks k.tracker = blockNum (blockSize k.index) ↔ k.AllIn blocks) := by
  refine countP_blocks (blockSize_pos k.index) (walk_chain hw).nodup ?_ ?_
  · intro a ha hp
    obtain ⟨h₁, h₂⟩ := (hi.getSpanTracker_iff hk a).mp (of_decide_eq_true hp)
    exact (hi.carvings hk).tiled ((hi.mem_walk hw a).mp ha) h₁ h₂
  · intro j hj
    obtain ⟨h₁, h₂⟩ := blockAt_inside k.start hj
    refine decide_eq_true ((hi.getSpanTracker_iff hk _).mpr ⟨h₁, ?_⟩)
    have := blockSize_pos k.index
    omega

/-- A span all of whose blocks are on the list: none of them is held. -/
theorem Ok.noneHeld (hi : Ok s w)
    (hw : walk 0 s.mem.word rounds (s.central.centralFreeList index) = some blocks) {k : Carving}
    (hall : k.AllIn blocks) : k.NoneHeld s.held := by
  rintro j hj ⟨i, a⟩ he rfl
  have hfree := (hi.mem_walk hw _).mp (hall j hj)
  rw [hi.held he] at hfree
  exact absurd hfree (by simp)

/-- For the tracker of a carving: being due means what it should exactly if it is settled. -/
theorem Ok.due_iff (hi : Ok s w)
    (hw : walk 0 s.mem.word rounds (s.central.centralFreeList index) = some blocks) {k : Carving}
    (hk : k ∈ s.carvings) :
    (Due s.central (spanFreeCount s.central blocks) k.tracker ↔ k.AllIn blocks) ↔
      SpanTracker.Settled (s.central.spanTrackers k.tracker) (spanFreeCount s.central blocks k.tracker) := by
  obtain ⟨hle, hall⟩ := hi.spanFreeCount_spec hw hk
  have hcount := (hi.carvings hk).count
  have hb := blockNum_le k.index
  rw [← hcount] at hle hall hb
  rw [← hall]
  exact settled_iff hle hb

end Walk

/-! ## 3. One step -/

theorem givesBackRight_of_quiet {s s' : State} {l : Label} (h : step s l = some (s', [])) :
    GivesBackRight s l := by
  intro s₁ es h₁
  rw [h, Option.some.injEq, Prod.mk.injEq] at h₁
  obtain ⟨rfl, rfl⟩ := h₁
  exact ⟨fun t ht => absurd ht List.not_mem_nil, fun i b hb => absurd hb List.not_mem_nil⟩

/-- The events of a delayed return. -/
theorem mem_gaveBack {s : State} {index : Nat} {blocks order : List Nat} {es : List Event}
    (hord : IsOrder s.central blocks order)
    (hes : es = .scan index blocks ::
      (order.filter (Due s.central (spanFreeCount s.central blocks))).map .gaveBack) (t : Nat) :
    .gaveBack t ∈ es ↔ 0 < spanFreeCount s.central blocks t ∧
      Due s.central (spanFreeCount s.central blocks) t := by
  rw [hes, List.mem_cons, List.mem_map]
  constructor
  · rintro (h | ⟨t', ht', h⟩)
    · exact absurd h (by simp)
    · obtain rfl := Event.gaveBack.inj h
      obtain ⟨hm, hd⟩ := List.mem_filter.mp ht'
      exact ⟨(hord.mem_iff t').mp hm, of_decide_eq_true hd⟩
  · rintro ⟨hpos, hd⟩
    exact Or.inr ⟨t, List.mem_filter.mpr ⟨(hord.mem_iff t).mpr hpos, decide_eq_true hd⟩, rfl⟩

theorem mem_scan {due : List Nat} {index index' : Nat} {blocks blocks' : List Nat} {es : List Event}
    (hes : es = .scan index blocks :: due.map .gaveBack) (h : .scan index' blocks' ∈ es) :
    index' = index ∧ blocks' = blocks := by
  rw [hes, List.mem_cons, List.mem_map] at h
  rcases h with h | ⟨t, -, h⟩
  · exact Event.scan.inj h
  · exact absurd h (by simp)

/-- **A delayed return is right exactly when every tracker with blocks on the list is settled.** -/
theorem Ok.delayed_right {s : State} {w : Nat → Option Slot} (hi : Ok s w) {index rounds : Nat}
    {blocks order : List Nat} {es : List Event}
    (hw : walk 0 s.mem.word rounds (s.central.centralFreeList index) = some blocks)
    (hord : IsOrder s.central blocks order)
    (hes : es = .scan index blocks ::
      (order.filter (Due s.central (spanFreeCount s.central blocks))).map .gaveBack) :
    ((∀ t, .gaveBack t ∈ es → ∃ k ∈ s.carvings, k.tracker = t ∧
        ∃ blocks, .scan k.index blocks ∈ es ∧ k.AllIn blocks ∧ k.NoneHeld s.held) ∧
      ∀ i b, .scan i b ∈ es → ∀ k ∈ s.carvings, k.index = i → k.AllIn b → .gaveBack k.tracker ∈ es) ↔
    CentralCache.Settled s.central blocks := by
  have hgave := mem_gaveBack hord hes
  have hscan : .scan index blocks ∈ es := by
    rw [hes]
    exact List.mem_cons_self
  constructor
  · rintro ⟨honly, hall⟩ t ht
    obtain ⟨k, hk, rfl, hindex⟩ := hi.carving_of_count hw ht
    refine (hi.due_iff hw hk).mp ⟨fun hdue => ?_, fun hin => ?_⟩
    · obtain ⟨k', hk', htr, b, hb, hin, -⟩ := honly k.tracker ((hgave _).mpr ⟨ht, hdue⟩)
      obtain ⟨-, rfl⟩ := mem_scan hes hb
      rcases hi.apart hk' hk with rfl | hap
      · exact hin
      · exact absurd htr hap.1
    · exact ((hgave _).mp (hall index blocks hscan k hk hindex hin)).2
  · intro hset
    refine ⟨fun t ht => ?_, fun i b hb k hk _ hin => ?_⟩
    · obtain ⟨hpos, hdue⟩ := (hgave t).mp ht
      obtain ⟨k, hk, rfl, hindex⟩ := hi.carving_of_count hw hpos
      have hin := ((hi.due_iff hw hk).mpr (hset _ hpos)).mp hdue
      refine ⟨k, hk, rfl, blocks, ?_, hin, hi.noneHeld hw hin⟩
      rw [hindex]
      exact hscan
    · obtain ⟨-, rfl⟩ := mem_scan hes hb
      have hpos : 0 < spanFreeCount s.central b k.tracker := by
        rw [(hi.spanFreeCount_spec hw hk).2.mpr hin]
        exact blockNum_pos k.index
      exact (hgave _).mpr ⟨hpos, ((hi.due_iff hw hk).mpr (hset _ hpos)).mpr hin⟩

theorem Ok.right_iff {s s' : State} {w : Nat → Option Slot} (hi : Ok s w) {l : Label}
    {es : List Event} (h : Calls.step s l = some (s', es)) : GivesBackRight s l ↔ Settled s l := by
  cases l with
  | fetchRange index answer =>
    obtain ⟨s₁, -, heq⟩ := Option.map_eq_some_iff.mp h
    obtain ⟨-, rfl⟩ := Prod.mk.inj heq
    exact ⟨fun _ => trivial, fun _ => givesBackRight_of_quiet h⟩
  | write index block a v =>
    have hes : es = [] := by
      simp only [Calls.step] at h
      split at h
      · exact (Prod.mk.inj (Option.some.inj h)).2.symm
      · exact absurd h (by simp)
    rw [hes] at h
    exact ⟨fun _ => trivial, fun _ => givesBackRight_of_quiet h⟩
  | returnRange start size index now later order rounds =>
    obtain ⟨hmay, hret⟩ := step_returnRange h
    rcases returnRange_cases hret with ⟨hno, -, rfl⟩ | ⟨hstart, hindex, ⟨ht, -, rfl⟩ | ⟨ht, l, hp, rfl⟩⟩
    · refine ⟨fun _ hstart hindex => absurd ⟨hstart, hindex⟩ hno, fun _ => givesBackRight_of_quiet h⟩
    · refine ⟨fun _ _ _ htrue => ?_, fun _ => givesBackRight_of_quiet h⟩
      rw [ht] at htrue
      exact absurd htrue (by simp)
    · have hlink := hi.link (hmay hstart hindex)
      obtain ⟨blocks, hw, hord, hes, -⟩ := performDelayedReturn_cases hp
      have hright := hlink.delayed_right hw hord hes
      constructor
      · intro hg _ _ _ blocks' hw'
        obtain rfl : blocks = blocks' := Option.some.inj (hw.symm.trans hw')
        have hgood := hg _ _ h
        exact hright.mp hgood
      · intro hset s₁ es₁ h₁
        rw [h, Option.some.injEq, Prod.mk.injEq] at h₁
        obtain ⟨rfl, rfl⟩ := h₁
        exact hright.mpr (hset hstart hindex ht blocks hw)

/-! ## 4. Every run -/

/-- **A span goes back only when it is entirely free, and then it does**, in a run of calls in
    which every new span comes from `mmap`, exactly if at each delayed return every tracker
    with blocks on the list is settled. -/
theorem span_given_back_iff {ls : List Label} {s : State} {τ : List Event}
    (hr : run step {} ls = some (s, τ)) (hm : Meets step FreshSpan {} ls) :
    Meets step GivesBackRight {} ls ↔ Meets step Settled {} ls := by
  refine meets_congr (fun s => ∃ w, Ok s w) ?_ ?_ ⟨_, Ok.start⟩ hm hr
  · rintro s l s' es ⟨w, hi⟩ hfresh hs
    exact hi.step hfresh hs
  · rintro s l s' es ⟨w, hi⟩ - hs
    exact hi.right_iff hs

/-- The four blocks of a span are fetched and come back one by one; the last return is late
    enough to be a delayed one. -/
theorem span_given_back_four : ∃ s, run step {}
    [.fetchRange 1023 (some 4096), .fetchRange 1023 none, .fetchRange 1023 none, .fetchRange 1023 none,
      .returnRange 4096 8192 1023 0 0 [] 0, .returnRange 12288 8192 1023 0 0 [] 0,
      .returnRange 20480 8192 1023 0 0 [] 0, .returnRange 28672 8192 1023 1000 1000 [0] 4]
    = some (s, [.scan 1023 [28672, 20480, 12288, 4096], .gaveBack 0]) ∧
    Meets step GivesBackRight {}
      [.fetchRange 1023 (some 4096), .fetchRange 1023 none, .fetchRange 1023 none,
        .fetchRange 1023 none, .returnRange 4096 8192 1023 0 0 [] 0,
        .returnRange 12288 8192 1023 0 0 [] 0, .returnRange 20480 8192 1023 0 0 [] 0,
        .returnRange 28672 8192 1023 1000 1000 [0] 4] := by
  obtain ⟨⟨s, τ⟩, hr, rfl⟩ := Option.map_eq_some_iff.mp (show (run step {}
    [.fetchRange 1023 (some 4096), .fetchRange 1023 none, .fetchRange 1023 none, .fetchRange 1023 none,
      .returnRange 4096 8192 1023 0 0 [] 0, .returnRange 12288 8192 1023 0 0 [] 0,
      .returnRange 20480 8192 1023 0 0 [] 0, .returnRange 28672 8192 1023 1000 1000 [0] 4]).map Prod.snd
      = some [.scan 1023 [28672, 20480, 12288, 4096], .gaveBack 0] by decide +kernel)
  exact ⟨s, hr, (span_given_back_iff hr (by decide +kernel)).mpr (by decide +kernel)⟩

/-- Three of the four blocks are fetched and two come back. The counter stands at 1 then, with
    three blocks on the list: the span goes back while the third block is held. -/
theorem span_given_back_held : ∃ s s' es, run step {}
    [.fetchRange 1023 (some 4096), .fetchRange 1023 none, .fetchRange 1023 none,
      .returnRange 4096 8192 1023 0 0 [] 0] = some (s, []) ∧
    step s (.returnRange 12288 8192 1023 1000 1000 [0] 3) = some (s', es) ∧ .gaveBack 0 ∈ es ∧
    s.carvings = [⟨0, 1023, 4096⟩] ∧ s'.held = [(1023, blockAt 4096 (blockSize 1023) 2)] ∧
    ¬ GivesBackRight s (.returnRange 12288 8192 1023 1000 1000 [0] 3) := by
  obtain ⟨⟨s, τ⟩, hr, hs⟩ := Option.bind_eq_some_iff.mp (show ((run step {}
    [.fetchRange 1023 (some 4096), .fetchRange 1023 none, .fetchRange 1023 none,
      .returnRange 4096 8192 1023 0 0 [] 0]).bind fun p =>
    (step p.1 (.returnRange 12288 8192 1023 1000 1000 [0] 3)).map fun q =>
      (p.2, p.1.carvings, q.2, q.1.held))
    = some ([], [⟨0, 1023, 4096⟩], [.scan 1023 [12288, 4096, 28672], .gaveBack 0], [(1023, 20480)]) by
      decide +kernel)
  obtain ⟨⟨s', es⟩, hs', heq⟩ := Option.map_eq_some_iff.mp hs
  simp only [Prod.mk.injEq] at heq
  obtain ⟨rfl, hcarv, rfl, hheld⟩ := heq
  refine ⟨s, s', _, hr, hs', by simp, hcarv, hheld, fun h => ?_⟩
  obtain ⟨k, hk, -, blocks, -, -, hnone⟩ := (h s' _ hs').1 0 (by simp)
  rw [hcarv, List.mem_singleton] at hk
  rw [hk, hheld] at hnone
  exact hnone 2 (by decide) _ List.mem_cons_self rfl

end Calls
end Pool
end EpollChat
