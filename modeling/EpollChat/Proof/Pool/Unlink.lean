import EpollChat.Pool.Calls
import EpollChat.Proof.Pool.Carve
import Mathlib.Data.List.Perm.Subperm

/-!
# What `returnRange` does to the list

Linking puts the returned blocks in front of it. Giving a span back takes the blocks of the
span out of it and leaves the others in their order; the loop does that in place, with two
pointers. A delayed return does it for every tracker that is due, and a tracker is due by its
own counters alone, as no tracker comes up twice.

The last section is about counting: a list of distinct blocks has as many of a span's blocks
as the span has only if it has all of them.
-/

namespace EpollChat
namespace Pool
namespace Calls

open Lib

/-! ## 1. Linking the returned blocks -/

theorem lastBlock_mem {m : Memory} : ∀ {n a : Nat}, lastBlock m n a ∈ rangeBlocks m n a := by
  intro n
  induction n with
  | zero => exact List.mem_cons_self
  | succ n ih =>
    intro a
    rw [lastBlock, rangeBlocks]
    split
    · exact List.mem_cons_self
    · exact List.mem_cons_of_mem _ ih

/-- The blocks, and behind them the list there was. -/
theorem rangeBlocks_chain {m m' : Memory} {h : Nat} {old : List Nat} : ∀ {n a : Nat},
    (rangeBlocks m n a).Nodup → (∀ b ∈ rangeBlocks m n a, b ≠ 0) →
    (∀ b ∈ rangeBlocks m n a, b ≠ lastBlock m n a → m'.word b = m.word b) →
    m'.word (lastBlock m n a) = h → Chain 0 m'.word h old →
    Chain 0 m'.word a (rangeBlocks m n a ++ old) := by
  intro n
  induction n with
  | zero =>
    intro a _ hne _ hlast hold
    exact ⟨rfl, hne a List.mem_cons_self, by rw [show m'.word a = h from hlast]; exact hold⟩
  | succ n ih =>
    intro a hnd hne hword hlast hold
    rw [lastBlock] at hlast hword
    rw [rangeBlocks] at hnd hne hword ⊢
    split at hlast
    · next h₀ =>
      rw [if_pos h₀] at hnd hne hword ⊢
      exact ⟨rfl, hne a List.mem_cons_self, by rw [show m'.word a = h from hlast]; exact hold⟩
    · next h₀ =>
      rw [if_neg h₀] at hnd hne hword ⊢
      rw [if_neg h₀] at hword
      obtain ⟨hnot, hnd'⟩ := List.nodup_cons.mp hnd
      have ha : a ≠ lastBlock m n (m.word a) := by
        intro h'
        have hm : lastBlock m n (m.word a) ∈ rangeBlocks m n (m.word a) := lastBlock_mem
        rw [← h'] at hm
        exact hnot hm
      refine ⟨rfl, hne a List.mem_cons_self, ?_⟩
      rw [hword a List.mem_cons_self ha]
      exact ih hnd' (fun b hb => hne b (List.mem_cons_of_mem _ hb))
        (fun b hb => hword b (List.mem_cons_of_mem _ hb)) hlast hold

/-! ## 2. Taking a span's blocks out -/

def InSpan (t : SpanTracker) (a : Nat) : Prop :=
  t.spanAddr ≤ a ∧ a < t.spanAddr + t.numPages * PAGE_SIZE

instance (t : SpanTracker) (a : Nat) : Decidable (InSpan t a) :=
  inferInstanceAs (Decidable (_ ∧ _))

/-- **The unlinking loop.** Before each round the list is the blocks kept so far and the blocks
    still to come; `prev` is the last one kept. -/
theorem unlinkSpan_spec {t : SpanTracker} : ∀ {rounds : Nat} {m m' : Memory}
    {kept rest : List Nat} {newHead prev current head : Nat},
    unlinkSpan t rounds m newHead prev current = some (m', head) →
    Chain 0 m.word newHead (kept ++ rest) → Chain 0 m.word current rest →
    ((kept = [] ∧ prev = 0 ∧ newHead = current) ∨ ∃ k, kept = k ++ [prev]) →
    Chain 0 m'.word head (kept ++ rest.filter fun a => ¬ InSpan t a) ∧
      (∀ a, a ∉ kept ++ rest → m'.word a = m.word a) ∧ m'.regions = m.regions := by
  intro rounds
  induction rounds with
  | zero =>
    intro m m' kept rest newHead prev current head h hc hrest _
    unfold unlinkSpan at h
    split at h
    · next h₀ =>
      simp only [Option.some.injEq, Prod.mk.injEq] at h
      obtain ⟨rfl, rfl⟩ := h
      rw [h₀] at hrest
      obtain rfl : rest = [] := hrest.unique rfl
      exact ⟨hc, fun _ _ => rfl, rfl⟩
    · exact absurd h (by simp)
  | succ rounds ih =>
    intro m m' kept rest newHead prev current head h hc hrest hprev
    unfold unlinkSpan at h
    split at h
    · next h₀ =>
      simp only [Option.some.injEq, Prod.mk.injEq] at h
      obtain ⟨rfl, rfl⟩ := h
      rw [h₀] at hrest
      obtain rfl : rest = [] := hrest.unique rfl
      exact ⟨hc, fun _ _ => rfl, rfl⟩
    · next h₀ =>
      obtain ⟨rest', rfl, hrest'⟩ := hrest.uncons h₀
      have hnd := hc.nodup
      dsimp only at h
      split at h
      · next hin =>
        have hfilter : (current :: rest').filter (fun a => ¬ InSpan t a)
            = rest'.filter fun a => ¬ InSpan t a :=
          List.filter_cons_of_neg (by simp [show InSpan t current from hin])
        rw [hfilter]
        split at h
        · next hp =>
          -- cut `current` out behind `prev`
          obtain ⟨k, rfl⟩ := hprev.resolve_left fun h' => hp h'.2.1
          have hprev_not : prev ∉ k ∧ prev ∉ current :: rest' := by
            rw [List.append_assoc, List.singleton_append, List.nodup_append] at hnd
            refine ⟨fun hm => ?_, (List.nodup_cons.mp hnd.2.1).1⟩
            exact hnd.2.2 prev hm prev List.mem_cons_self rfl
          have hsame : ∀ a, a ≠ prev → (m.store prev (m.word current)).word a = m.word a :=
            fun a ha => Memory.store_other ha ..
          have hrest_same : ∀ a ∈ rest', (m.store prev (m.word current)).word a = m.word a := by
            intro a ha
            refine hsame a fun h' => hprev_not.2 ?_
            rw [← h']
            exact List.mem_cons_of_mem _ ha
          have hc' : Chain 0 (m.store prev (m.word current)).word newHead (k ++ prev :: rest') := by
            rw [List.append_assoc, List.singleton_append] at hc
            refine hc.cut (Memory.store_same ..) (fun a ha => hsame a ?_) hrest_same
            rintro rfl
            exact hprev_not.1 ha
          obtain ⟨h₁, h₂, h₃⟩ := ih h (by rw [List.append_assoc]; exact hc')
            (hrest'.congr hrest_same) (Or.inr ⟨k, rfl⟩)
          refine ⟨h₁, fun a ha => ?_, h₃⟩
          simp only [List.mem_append, List.mem_cons, not_or] at ha
          rw [h₂ a (by simp [ha]), hsame a (by simpa using ha.1.2)]
        · next hp =>
          -- nothing kept yet: the list now starts behind `current`
          have hk : kept = [] ∧ newHead = current := by
            rcases hprev with ⟨hk, -, hh⟩ | ⟨k, rfl⟩
            · exact ⟨hk, hh⟩
            · exact absurd (hc.ne_null prev (by simp)) (not_not.mpr (not_not.mp hp))
          obtain ⟨rfl, rfl⟩ := hk
          have hc' : Chain 0 m.word (m.word newHead) ([] ++ rest') := hrest'
          obtain ⟨h₁, h₂, h₃⟩ := ih h hc' hrest' (Or.inl ⟨rfl, not_not.mp hp, rfl⟩)
          exact ⟨h₁, fun a ha => h₂ a fun hm => ha (List.mem_cons_of_mem _ hm), h₃⟩
      · next hout =>
        have hfilter : (current :: rest').filter (fun a => ¬ InSpan t a)
            = current :: rest'.filter fun a => ¬ InSpan t a :=
          List.filter_cons_of_pos (decide_eq_true (show ¬ InSpan t current from hout))
        have hc' : Chain 0 m.word newHead ((kept ++ [current]) ++ rest') := by
          rw [List.append_assoc]
          exact hc
        obtain ⟨h₁, h₂, h₃⟩ := ih h hc' hrest' (Or.inr ⟨kept, rfl⟩)
        refine ⟨?_, fun a ha => h₂ a ?_, h₃⟩
        · rw [hfilter]
          rw [List.append_assoc] at h₁
          exact h₁
        · rw [List.append_assoc]
          exact ha

/-! ## 3. A delayed return -/

/-- `updateSpanFreeCount` gives the span back. -/
def Due (c : CentralCache) (count : Nat → Nat) (tracker : Nat) : Prop :=
  (c.spanTrackers tracker).freeCount + UInt64.ofNat (count tracker)
    = UInt64.ofNat (c.spanTrackers tracker).blockCount

instance (c : CentralCache) (count : Nat → Nat) : DecidablePred (Due c count) :=
  fun _ => inferInstanceAs (Decidable (_ = _))

/-- The trackers stand for the same spans; their counters may differ. -/
structure SameSpans (c c' : CentralCache) : Prop where
  count : c'.spanCount = c.spanCount
  addr : ∀ t, (c'.spanTrackers t).spanAddr = (c.spanTrackers t).spanAddr
  pages : ∀ t, (c'.spanTrackers t).numPages = (c.spanTrackers t).numPages
  blocks : ∀ t, (c'.spanTrackers t).blockCount = (c.spanTrackers t).blockCount

theorem SameSpans.refl (c : CentralCache) : SameSpans c c :=
  ⟨rfl, fun _ => rfl, fun _ => rfl, fun _ => rfl⟩

theorem SameSpans.trans {c c' c'' : CentralCache} (h : SameSpans c c') (h' : SameSpans c' c'') :
    SameSpans c c'' :=
  ⟨h'.count.trans h.count, fun t => (h'.addr t).trans (h.addr t),
    fun t => (h'.pages t).trans (h.pages t), fun t => (h'.blocks t).trans (h.blocks t)⟩

theorem SameSpans.of_trackers {c c' : CentralCache} (hc : c'.spanCount = c.spanCount)
    (ht : c'.spanTrackers = c.spanTrackers) : SameSpans c c' := by
  refine ⟨hc, fun t => ?_, fun t => ?_, fun t => ?_⟩ <;> rw [ht]

theorem SameSpans.setFreeCount (c : CentralCache) (i : Nat) (n : UInt64) :
    SameSpans c (c.setTracker i { c.spanTrackers i with freeCount := n }) := by
  have h : ∀ t, (c.setTracker i { c.spanTrackers i with freeCount := n }).spanTrackers t
      = if t = i then { c.spanTrackers i with freeCount := n } else c.spanTrackers t := by
    intro t
    exact Function.update_apply ..
  refine ⟨rfl, fun t => ?_, fun t => ?_, fun t => ?_⟩ <;>
  · rw [h]
    split
    · next ht => rw [ht]
    · rfl

theorem SameSpans.inSpan {c c' : CentralCache} (h : SameSpans c c') (t a : Nat) :
    InSpan (c'.spanTrackers t) a ↔ InSpan (c.spanTrackers t) a := by
  unfold InSpan
  rw [h.addr, h.pages]

/-- What is left of a list when some spans have gone. -/
def without (c : CentralCache) (gone blocks : List Nat) : List Nat :=
  blocks.filter fun a => ∀ t ∈ gone, ¬ InSpan (c.spanTrackers t) a

theorem updateSpanFreeCount_spec {s s' : Cache} {t n index rounds : Nat} {es : List Event}
    {blocks : List Nat} (h : updateSpanFreeCount s t n index rounds = some (s', es))
    (hc : Chain 0 s.mem.word (s.central.centralFreeList index) blocks) :
    es = (if Due s.central (fun _ => n) t then [.gaveBack t] else []) ∧
      Chain 0 s'.mem.word (s'.central.centralFreeList index)
        (without s.central (if Due s.central (fun _ => n) t then [t] else []) blocks) ∧
      (∀ i, i ≠ index → s'.central.centralFreeList i = s.central.centralFreeList i) ∧
      (∀ a, a ∉ blocks → s'.mem.word a = s.mem.word a) ∧ s'.mem.regions = s.mem.regions ∧
      SameSpans s.central s'.central ∧
      ∀ t', t' ≠ t → (s'.central.spanTrackers t').freeCount = (s.central.spanTrackers t').freeCount := by
  have hother : ∀ t', t' ≠ t → ((s.central.setTracker t { s.central.spanTrackers t with
      freeCount := (s.central.spanTrackers t).freeCount + UInt64.ofNat n }).spanTrackers t').freeCount
      = (s.central.spanTrackers t').freeCount := by
    intro t' ht
    exact congrArg SpanTracker.freeCount (Function.update_of_ne ht ..)
  unfold updateSpanFreeCount at h
  dsimp only at h
  split at h
  · next hdue =>
    have hdue' : Due s.central (fun _ => n) t := hdue
    simp only [if_pos hdue']
    split at h
    · exact absurd h (by simp)
    · next m newHead hun =>
      split at h
      · exact absurd h (by simp)
      · next p hp =>
        simp only [Option.some.injEq, Prod.mk.injEq] at h
        obtain ⟨rfl, rfl⟩ := h
        have hc' : Chain 0 s.mem.word (s.central.centralFreeList index) ([] ++ blocks) := hc
        obtain ⟨h₁, h₂, h₃⟩ := unlinkSpan_spec hun hc' hc (Or.inl ⟨rfl, rfl, rfl⟩)
        have hsame := SameSpans.setFreeCount s.central t
          ((s.central.spanTrackers t).freeCount + UInt64.ofNat n)
        refine ⟨rfl, ?_, ?_, h₂, h₃, hsame.trans (.of_trackers rfl rfl), hother⟩
        · have hhead : ((s.central.setTracker t { s.central.spanTrackers t with
              freeCount := (s.central.spanTrackers t).freeCount + UInt64.ofNat n }).setHead index
              newHead).centralFreeList index = newHead := Function.update_self ..
          rw [hhead]
          simpa [without] using h₁
        · exact fun i hi => Function.update_of_ne hi ..
  · next hdue =>
    have hdue' : ¬ Due s.central (fun _ => n) t := hdue
    simp only [if_neg hdue']
    simp only [Option.some.injEq, Prod.mk.injEq] at h
    obtain ⟨rfl, rfl⟩ := h
    refine ⟨rfl, ?_, fun _ _ => rfl, fun _ _ => rfl, rfl, SameSpans.setFreeCount .., hother⟩
    simp only [without, List.not_mem_nil, false_imp_iff, implies_true, decide_true,
      List.filter_true]
    exact hc

theorem without_without {c c' : CentralCache} (h : SameSpans c c') (g g' blocks : List Nat) :
    without c' g' (without c g blocks) = without c (g ++ g') blocks := by
  unfold without
  rw [List.filter_filter]
  refine List.filter_congr fun a _ => ?_
  rw [Bool.eq_iff_iff]
  simp only [Bool.and_eq_true, decide_eq_true_eq, List.mem_append, h.inSpan]
  constructor
  · rintro ⟨h', h⟩ t (ht | ht)
    · exact h t ht
    · exact h' t ht
  · exact fun h => ⟨fun t ht => h t (Or.inr ht), fun t ht => h t (Or.inl ht)⟩

/-- **A delayed return** gives back exactly the spans that are due, and takes their blocks out
    of the list. -/
theorem updateAll_spec {count : Nat → Nat} {index rounds : Nat} : ∀ {order : List Nat} {s s' : Cache}
    {es : List Event} {blocks : List Nat}, updateAll count index rounds order s = some (s', es) →
    order.Nodup → Chain 0 s.mem.word (s.central.centralFreeList index) blocks →
    es = (order.filter (Due s.central count)).map .gaveBack ∧
      Chain 0 s'.mem.word (s'.central.centralFreeList index)
        (without s.central (order.filter (Due s.central count)) blocks) ∧
      (∀ i, i ≠ index → s'.central.centralFreeList i = s.central.centralFreeList i) ∧
      (∀ a, a ∉ blocks → s'.mem.word a = s.mem.word a) ∧ s'.mem.regions = s.mem.regions ∧
      SameSpans s.central s'.central := by
  intro order
  induction order with
  | nil =>
    intro s s' es blocks h _ hc
    simp only [updateAll, Option.some.injEq, Prod.mk.injEq] at h
    obtain ⟨rfl, rfl⟩ := h
    refine ⟨rfl, ?_, fun _ _ => rfl, fun _ _ => rfl, rfl, SameSpans.refl _⟩
    simpa [without] using hc
  | cons t order ih =>
    intro s s' es blocks h hnd hc
    obtain ⟨hnot, hnd'⟩ := List.nodup_cons.mp hnd
    unfold updateAll at h
    split at h
    · exact absurd h (by simp)
    · next s₁ es₁ h₁ =>
      split at h
      · exact absurd h (by simp)
      · next s₂ es₂ h₂ =>
        simp only [Option.some.injEq, Prod.mk.injEq] at h
        obtain ⟨rfl, rfl⟩ := h
        obtain ⟨he, hch, hlists, hword, hreg, hsame, hcount⟩ := updateSpanFreeCount_spec h₁ hc
        obtain ⟨he', hch', hlists', hword', hreg', hsame'⟩ := ih h₂ hnd' hch
        -- the trackers still to come are due by the counters they had
        have hdue : order.filter (Due s₁.central count) = order.filter (Due s.central count) := by
          refine List.filter_congr fun t' ht' => ?_
          have hne : t' ≠ t := fun h => hnot (h ▸ ht')
          rw [decide_eq_decide]
          unfold Due
          rw [hcount t' hne, hsame.blocks]
        have hfilter : (t :: order).filter (Due s.central count)
            = (if Due s.central (fun _ => count t) t then [t] else []) ++ order.filter (Due s.central count) := by
          rw [List.filter_cons]
          by_cases hd : Due s.central count t
          · rw [if_pos (decide_eq_true hd), if_pos (show Due s.central (fun _ => count t) t from hd)]
            rfl
          · rw [if_neg (by simpa using hd), if_neg (show ¬ Due s.central (fun _ => count t) t from hd)]
            rfl
        rw [hdue] at he' hch'
        refine ⟨?_, ?_, fun i hi => (hlists' i hi).trans (hlists i hi), fun a ha => ?_,
          hreg'.trans hreg, hsame.trans hsame'⟩
        · rw [hfilter, List.map_append, he', he]
          split <;> rfl
        · rw [hfilter, ← without_without hsame]
          exact hch'
        · rw [hword' a fun hm => ha (List.mem_of_mem_filter hm), hword a ha]

/-! ## 4. Counting the blocks of a span -/

theorem nodup_blockAt {start size : Nat} (hs : 0 < size) (n : Nat) :
    ((List.range n).map (blockAt start size)).Nodup :=
  List.nodup_range.map fun _ _ h => blockAt_inj hs h

/-- A list of distinct blocks holds at most all of the `n` blocks of a span, and as many only
    if it holds them all. -/
theorem countP_blocks {blocks : List Nat} {p : Nat → Bool} {start size n : Nat} (hs : 0 < size)
    (hnd : blocks.Nodup) (hin : ∀ a ∈ blocks, p a = true → ∃ j, j < n ∧ a = blockAt start size j)
    (hall : ∀ j, j < n → p (blockAt start size j) = true) :
    blocks.countP p ≤ n ∧ (blocks.countP p = n ↔ ∀ j, j < n → blockAt start size j ∈ blocks) := by
  have hlen : ((List.range n).map (blockAt start size)).length = n := by simp
  have hsub : blocks.filter p ⊆ (List.range n).map (blockAt start size) := by
    intro a ha
    obtain ⟨ha, hp⟩ := List.mem_filter.mp ha
    obtain ⟨j, hj, rfl⟩ := hin a ha hp
    exact List.mem_map_of_mem (List.mem_range.mpr hj)
  have hperm := (List.subperm_of_subset (hnd.filter p) hsub)
  rw [List.countP_eq_length_filter]
  refine ⟨hlen ▸ hperm.length_le, fun h j hj => ?_, fun h => ?_⟩
  · have hp := hperm.perm_of_length_le (by rw [hlen, h])
    have hm := hp.mem_iff.mpr (List.mem_map_of_mem (f := blockAt start size) (List.mem_range.mpr hj))
    exact (List.mem_filter.mp hm).1
  · refine Nat.le_antisymm (hlen ▸ hperm.length_le) ?_
    have hsub' : (List.range n).map (blockAt start size) ⊆ blocks.filter p := by
      intro a ha
      obtain ⟨j, hj, rfl⟩ := List.mem_map.mp ha
      rw [List.mem_range] at hj
      exact List.mem_filter.mpr ⟨h j hj, hall j hj⟩
    have hle := (List.subperm_of_subset (nodup_blockAt hs n) hsub').length_le
    rwa [hlen] at hle

end Calls
end Pool
end EpollChat
