import EpollChat.Pool.ThreadCache
import EpollChat.Proof.Pool.Unlink

/-!
# A thread's lists and their counts

`freeListSize_[index]` is counted up and down one by one, added to and set, in four functions. It
is always the length of the list: each function changes the list of one class, by as many blocks
as it changes the count, and a list that keeps its blocks keeps its length
(`Lib.Lists.length_eq`). So `counts_never_drift` holds of every run, and the test in `allocate`
that keeps a count of 0 from being decremented never fails.
-/

namespace EpollChat
namespace Pool

open Lib

/-! ## 1. Splitting a list -/

theorem keepNum_lt {n : Nat} (h : 2 ≤ n) : 1 ≤ keepNum n ∧ keepNum n < n := by
  unfold keepNum
  omega

/-- A list with a cut behind its first `k` entries. -/
theorem exists_cut {l : List Nat} {k : Nat} (hk : 1 ≤ k) (hlt : k < l.length) :
    ∃ front p x back, l = front ++ p :: x :: back ∧ front.length + 1 = k := by
  have hp : k - 1 < l.length := by omega
  have htake : l.take (k - 1) ++ l.drop (k - 1) = l := List.take_append_drop ..
  have hdrop : l.drop (k - 1) = l.get ⟨k - 1, hp⟩ :: l.drop k := by
    rw [List.drop_eq_getElem_cons hp, show k - 1 + 1 = k by omega]
    rfl
  rw [hdrop, List.drop_eq_getElem_cons hlt] at htake
  refine ⟨l.take (k - 1), _, _, _, htake.symm, ?_⟩
  rw [List.length_take]
  omega

theorem take_cut (front back : List Nat) (p x : Nat) :
    (front ++ p :: x :: back).take (front.length + 1) = front ++ [p] := by
  rw [List.take_append, List.take_of_length_le (by omega), Nat.add_sub_cancel_left]
  rfl

theorem drop_cut (front back : List Nat) (p x : Nat) :
    (front ++ p :: x :: back).drop (front.length + 1) = x :: back := by
  rw [← List.drop_drop, List.drop_left]
  rfl

namespace ThreadCache

/-- A list of at most one block stays as it is. -/
theorem split_short {c : ThreadCache} {m : Memory} {start size rounds : Nat} {l : List Nat}
    (hwalk : walk 0 m.word rounds start = some l) (hshort : l.length ≤ 1) :
    c.split m start size rounds = some (c, m, none) := by
  simp only [split, hwalk, if_pos hshort]

/-- **A longer list is cut** behind its first quarter. -/
theorem split_long {c : ThreadCache} {m : Memory} {start size rounds : Nat} {front back : List Nat}
    {p x : Nat} (hwalk : walk 0 m.word rounds start = some (front ++ p :: x :: back))
    (hkeep : front.length + 1 = keepNum (front ++ p :: x :: back).length) :
    c.split m start size rounds = some (c.set (getIndex size) start (front.length + 1), m.store p 0,
      some (x, (back.length + 1) * roundUp size % 2 ^ 64)) := by
  have hl := walk_chain hwalk
  have hnode : m.word^[keepNum (front ++ p :: x :: back).length - 1] start = p := by
    rw [← hkeep]
    exact hl.iterate
  have hnext : m.word p = x := hl.of_append.2.2.1
  have hx : x ≠ 0 := hl.ne_null x (by simp)
  have hlen : (front ++ p :: x :: back).length = front.length + 1 + (back.length + 1) := by
    simp only [List.length_append, List.length_cons]
    omega
  have hreturn : (front ++ p :: x :: back).length - keepNum (front ++ p :: x :: back).length
      = back.length + 1 := by
    omega
  simp only [split, hwalk, hnode, hnext]
  rw [if_neg (by omega), if_pos ⟨by omega, hx⟩, hreturn, ← hkeep]

end ThreadCache

/-- The two parts, when the last block kept has lost its link. -/
theorem chain_front {m : Memory} {start : Nat} {front back : List Nat} {p x : Nat}
    (hl : Chain 0 m.word start (front ++ p :: x :: back)) :
    Chain 0 (m.store p 0).word start (front ++ [p]) := by
  refine hl.splice (fun a ha => ?_) (Memory.store_same ..)
  refine Memory.store_other (fun h => ?_) ..
  have hnd := List.nodup_append.mp hl.nodup
  exact hnd.2.2 a ha p List.mem_cons_self h

theorem chain_back {m : Memory} {start : Nat} {front back : List Nat} {p x : Nat}
    (hl : Chain 0 m.word start (front ++ p :: x :: back)) :
    Chain 0 (m.store p 0).word x (x :: back) := by
  have hp := List.nodup_cons.mp (List.nodup_append.mp hl.nodup).2.1
  have hback : Chain 0 m.word x (x :: back) := by
    have hp' := hl.of_append.2.2
    rw [hp'.1] at hp'
    exact hp'
  refine hback.congr fun a ha => Memory.store_other ?_ ..
  rintro rfl
  exact hp.1 ha

/-- `returnRange` goes through the first blocks of the list, as many as its size makes of them. -/
theorem rangeBlocks_eq_take {m : Memory} : ∀ {n a : Nat} {l : List Nat}, Chain 0 m.word a (a :: l) →
    Calls.rangeBlocks m n a = (a :: l).take (n + 1) := by
  intro n
  induction n with
  | zero => exact fun _ => rfl
  | succ n ih =>
    intro a l hl
    rw [Calls.rangeBlocks]
    cases l with
    | nil =>
      rw [if_pos (show m.word a = 0 from hl.2.2)]
      rfl
    | cons b l =>
      have hb : m.word a = b := hl.2.2.1
      rw [hb, if_neg hl.2.2.2.1, ih (hb ▸ hl.2.2)]
      rfl

/-- So the block whose link it sets is one of them. -/
theorem lastBlock_mem_of_chain {m : Memory} {n a : Nat} {l : List Nat} (hl : Chain 0 m.word a (a :: l)) :
    lastBlock m n a ∈ a :: l := by
  have hmem : lastBlock m n a ∈ Calls.rangeBlocks m n a := Calls.lastBlock_mem
  rw [rangeBlocks_eq_take hl] at hmem
  exact List.mem_of_mem_take hmem

/-! ## 2. Counts -/

namespace OneCache

/-- Every count is the length of its list. -/
structure Counted (s : State) : Prop where
  lists : Lists 0 s.mem.word s.cache.freeList s.place
  count : ∀ {index l}, Chain 0 s.mem.word (s.cache.freeList index) l → s.cache.freeListSize index = l.length

theorem counted_init (m : Memory) : Counted { mem := m } := by
  have hnil : ∀ {l : List Nat}, Chain 0 m.word 0 l → l = [] := fun hl => hl.unique (rfl : Chain 0 m.word 0 [])
  refine ⟨fun k => ⟨[], rfl, fun a => ?_⟩, fun hl => ?_⟩
  · exact ⟨fun h => absurd h List.not_mem_nil, fun h => absurd h (by simp)⟩
  · rw [hnil hl]
    rfl

/-- A function that changes one list keeps the counts if it sets the new length of that list. -/
theorem Counted.set {s : State} (hs : Counted s) {m : Memory} {index head : Nat} {l : List Nat}
    {place : Nat → Option Nat} (hl : Chain 0 m.word head l)
    (hlists : Lists 0 m.word (s.cache.set index head l.length).freeList place)
    (hother : ∀ a j, j ≠ index → (place a = some j ↔ s.place a = some j)) :
    Counted ⟨m, s.cache.set index head l.length, place⟩ := by
  refine ⟨hlists, fun {j} l' hl' => ?_⟩
  by_cases hj : j = index
  · subst hj
    dsimp only [ThreadCache.set] at hl' ⊢
    rw [Function.update_self] at hl' ⊢
    rw [hl'.unique hl]
  · obtain ⟨l₀, hl₀, -⟩ := hs.lists j
    have hsame := hs.lists.length_eq hlists (fun a => hother a j hj) hl₀ hl'
    dsimp only [ThreadCache.set]
    rw [Function.update_of_ne hj, hsame, hs.count hl₀]

theorem Counted.pop {s : State} (hs : Counted s) {index : Nat} (hptr : s.cache.freeList index ≠ 0) :
    0 < s.cache.freeListSize index ∧
      Counted { s with
        cache := s.cache.set index (s.mem.word (s.cache.freeList index)) (s.cache.freeListSize index - 1)
        place := Function.update s.place (s.cache.freeList index) none } := by
  obtain ⟨l, hl, -⟩ := hs.lists index
  obtain ⟨l', rfl, hl'⟩ := hl.uncons hptr
  have hcount : s.cache.freeListSize index = l'.length + 1 := hs.count hl
  have hplace := hs.lists.place_head hptr
  refine ⟨by omega, ?_⟩
  rw [show s.cache.freeListSize index - 1 = l'.length by omega]
  refine hs.set hl' (hs.lists.pop hptr fun a j _ _ => rfl) fun a j hj => Lists.update_place_iff ?_ (by simp)
  rw [hplace]
  exact fun h => hj (Option.some.inj h).symm

theorem Counted.push {s : State} (hs : Counted s) {ptr : Nat} (index : Nat) (hptr : ptr ≠ 0)
    (hfree : s.place ptr = none) :
    Counted
      { mem := s.mem.store ptr (s.cache.freeList index)
        cache := s.cache.set index ptr (s.cache.freeListSize index + 1)
        place := Function.update s.place ptr (some index) } := by
  obtain ⟨l, hl, hmem⟩ := hs.lists index
  have hword : ∀ b j, s.place b = some j →
      (s.mem.store ptr (s.cache.freeList index)).word b = s.mem.word b := by
    intro b j hb
    refine Memory.store_other ?_ ..
    rintro rfl
    rw [hfree] at hb
    exact absurd hb (by simp)
  have hl' : Chain 0 (s.mem.store ptr (s.cache.freeList index)).word ptr (ptr :: l) := by
    refine ⟨rfl, hptr, ?_⟩
    rw [Memory.store_same]
    exact hl.congr fun b hb => hword b index ((hmem b).mp hb)
  rw [hs.count hl]
  refine hs.set (l := ptr :: l) hl' (hs.lists.push hptr hfree (Memory.store_same ..) hword) fun a j hj => ?_
  exact Lists.update_place_iff (by rw [hfree]; simp) fun h => hj (Option.some.inj h).symm

theorem placed_mem {place : Nat → Option Nat} {blocks : List Nat} {k : Option Nat} {a : Nat}
    (h : a ∈ blocks) : placed place blocks k a = k :=
  if_pos (List.contains_iff_mem.mpr h)

theorem placed_not_mem {place : Nat → Option Nat} {blocks : List Nat} {k : Option Nat} {a : Nat}
    (h : a ∉ blocks) : placed place blocks k a = place a :=
  if_neg fun hc => h (List.contains_iff_mem.mp hc)

theorem Counted.fetch {s : State} (hs : Counted s) {index start : Nat} {blocks : List Nat}
    (hempty : s.cache.freeList index = 0) (hl : Chain 0 s.mem.word (s.mem.word start) blocks)
    (hfree : ∀ a ∈ blocks, s.place a = none) :
    Counted { s with
      cache := s.cache.set index (s.mem.word start) (s.cache.freeListSize index + blocks.length)
      place := placed s.place blocks (some index) } := by
  have hzero : s.cache.freeListSize index = 0 := hs.count (l := []) hempty
  rw [hzero, Nat.zero_add]
  refine hs.set hl (hs.lists.fill hempty hl hfree (fun _ _ _ => rfl) (fun a ha => placed_mem ha)
    fun a ha => placed_not_mem ha) fun a j hj => ?_
  by_cases ha : a ∈ blocks
  · rw [placed_mem ha, hfree a ha]
    exact ⟨fun h => absurd (Option.some.inj h).symm hj, fun h => absurd h (by simp)⟩
  · rw [placed_not_mem ha]

/-- What is kept is still a list, whatever is written to the blocks that go. -/
theorem Counted.keep {s : State} (hs : Counted s) {index : Nat} {front back : List Nat} {p x : Nat}
    (hl : Chain 0 s.mem.word (s.cache.freeList index) (front ++ p :: x :: back)) {m : Memory}
    (hm : ∀ a, a ∉ x :: back → m.word a = (s.mem.store p 0).word a) :
    Counted
      { mem := m
        cache := s.cache.set index (s.cache.freeList index) (front.length + 1)
        place := placed s.place (x :: back) none } := by
  have hsplit : front ++ p :: x :: back = (front ++ [p]) ++ (x :: back) := by simp
  have hapart := (List.nodup_append.mp (hsplit ▸ hl.nodup)).2.2
  have hplace : ∀ a, s.place a = some index ↔ a ∈ (front ++ [p]) ++ (x :: back) := by
    intro a
    rw [← hsplit, ← hl.onList_iff, hs.lists.onList_iff]
  have hkept : Chain 0 m.word (s.cache.freeList index) (front ++ [p]) :=
    (chain_front hl).congr fun a ha => hm a fun hback => hapart a ha a hback rfl
  have hother : ∀ a j, j ≠ index → (placed s.place (x :: back) none a = some j ↔ s.place a = some j) := by
    intro a j hj
    by_cases ha : a ∈ x :: back
    · rw [placed_mem ha, (hplace a).mpr (List.mem_append_right _ ha)]
      exact ⟨fun h => absurd h (by simp), fun h => absurd (Option.some.inj h).symm hj⟩
    · rw [placed_not_mem ha]
  rw [show front.length + 1 = (front ++ [p]).length by simp]
  refine hs.set hkept (hs.lists.replace hkept (fun a => ?_) hother fun a j hj ha => ?_) hother
  · by_cases ha : a ∈ x :: back
    · rw [placed_mem ha]
      exact ⟨fun h => absurd rfl (hapart a h a ha), fun h => absurd h (by simp)⟩
    · rw [placed_not_mem ha, hplace a]
      exact ⟨fun h => List.mem_append_left _ h, fun h => (List.mem_append.mp h).resolve_right ha⟩
  · -- a block of another class is not on this list, so neither write was to it
    have hnot : a ∉ (front ++ [p]) ++ (x :: back) := by
      rw [← hplace a, ha]
      exact fun h => hj (Option.some.inj h)
    rw [hm a fun h => hnot (List.mem_append_right _ h)]
    refine Memory.store_other ?_ ..
    rintro rfl
    exact hnot (by simp)

theorem Counted.outside {s : State} (hs : Counted s) {a : Nat} (ha : s.place a = none) (v : Nat) :
    Counted { s with mem := s.mem.store a v } := by
  have hword : ∀ b j, s.place b = some j → (s.mem.store a v).word b = s.mem.word b := by
    intro b j hb
    refine Memory.store_other ?_ ..
    rintro rfl
    rw [ha] at hb
    exact absurd hb (by simp)
  have hlists := hs.lists.frame hword
  refine ⟨hlists, fun {index} l hl => ?_⟩
  obtain ⟨l₀, hl₀, -⟩ := hs.lists index
  rw [hs.count hl₀, hs.lists.length_eq hlists (fun _ => Iff.rfl) hl₀ hl]

/-! ## 3. Steps and runs -/

theorem Counted.fetchFromCentralCache {s s' : State} (hs : Counted s) {index start rounds : Nat}
    {es : List Event} (hempty : s.cache.freeList index = 0)
    (h : fetchFromCentralCache s index start rounds = some (s', es)) : Counted s' ∧ es = [] := by
  rw [OneCache.fetchFromCentralCache] at h
  split at h
  · simp only [Option.some.injEq, Prod.mk.injEq] at h
    obtain ⟨rfl, rfl⟩ := h
    exact ⟨hs, rfl⟩
  · dsimp only at h
    split at h
    · exact absurd h (by simp)
    · next blocks hwalk =>
      split at h
      · next hmay =>
        simp only [Option.some.injEq, Prod.mk.injEq] at h
        obtain ⟨rfl, rfl⟩ := h
        exact ⟨hs.fetch hempty (walk_chain hwalk) hmay.2, rfl⟩
      · exact absurd h (by simp)

theorem Counted.allocate {s s' : State} (hs : Counted s) {size start rounds : Nat} {es : List Event}
    (h : allocate s size start rounds = some (s', es)) : Counted s' ∧ es = [] := by
  rw [OneCache.allocate] at h
  generalize (if size = 0 then ALIGNMENT else size) = size' at h
  dsimp only at h
  split at h
  · simp only [Option.some.injEq, Prod.mk.injEq] at h
    obtain ⟨rfl, rfl⟩ := h
    exact ⟨hs, rfl⟩
  · split at h
    · next hptr =>
      obtain ⟨hpos, hs'⟩ := hs.pop hptr
      rw [if_pos hpos, if_pos hpos] at h
      simp only [Option.some.injEq, Prod.mk.injEq] at h
      obtain ⟨rfl, rfl⟩ := h
      exact ⟨hs', rfl⟩
    · next hptr => exact hs.fetchFromCentralCache (Decidable.not_not.mp hptr) h

theorem Counted.deallocate {s s' : State} (hs : Counted s) {ptr size : Nat} {es : List Event}
    (h : deallocate s ptr size = some (s', es)) : Counted s' ∧ es = [] := by
  rw [OneCache.deallocate] at h
  split at h
  · simp only [Option.some.injEq, Prod.mk.injEq] at h
    obtain ⟨rfl, rfl⟩ := h
    exact ⟨hs, rfl⟩
  · split at h
    · exact absurd h (by simp)
    · next hok =>
      obtain ⟨hptr, hfree⟩ := not_or.mp hok
      simp only [Option.some.injEq, Prod.mk.injEq] at h
      obtain ⟨rfl, rfl⟩ := h
      exact ⟨hs.push _ hptr (Decidable.not_not.mp hfree), rfl⟩

theorem Counted.returnToCentralCache {s s' : State} (hs : Counted s) {size current rounds : Nat}
    {es : List Event} (h : returnToCentralCache s size current rounds = some (s', es)) :
    Counted s' ∧ es = [] := by
  rw [OneCache.returnToCentralCache] at h
  split at h
  · exact absurd h (by simp)
  · dsimp only at h
    cases hwalk : walk 0 s.mem.word rounds (s.cache.freeList (getIndex size)) with
    | none =>
      simp only [ThreadCache.split, hwalk] at h
      exact absurd h (by simp)
    | some l =>
      by_cases hshort : l.length ≤ 1
      · rw [ThreadCache.split_short hwalk hshort] at h
        simp only [Option.some.injEq, Prod.mk.injEq] at h
        obtain ⟨rfl, rfl⟩ := h
        exact ⟨hs, rfl⟩
      · obtain ⟨hkeep, hlt⟩ := keepNum_lt (show 2 ≤ l.length by omega)
        obtain ⟨front, p, x, back, rfl, hfront⟩ := exists_cut hkeep hlt
        have hl := walk_chain hwalk
        rw [ThreadCache.split_long hwalk hfront, hwalk] at h
        simp only [Option.getD_some, Option.some.injEq, Prod.mk.injEq] at h
        obtain ⟨rfl, rfl⟩ := h
        rw [← hfront, drop_cut]
        refine ⟨hs.keep hl fun a ha => Memory.store_other ?_ .., rfl⟩
        rintro rfl
        exact ha (lastBlock_mem_of_chain (chain_back hl))

theorem counted_step {s s' : State} (hs : Counted s) {l : Label} {es : List Event}
    (h : step s l = some (s', es)) : Counted s' ∧ es = [] := by
  cases l with
  | allocate size start rounds => exact hs.allocate h
  | deallocate ptr size => exact hs.deallocate h
  | returnToCentralCache size current rounds => exact hs.returnToCentralCache h
  | outside a v =>
    simp only [step] at h
    split at h
    · next ha =>
      simp only [Option.some.injEq, Prod.mk.injEq] at h
      obtain ⟨rfl, rfl⟩ := h
      exact ⟨hs.outside ha v, rfl⟩
    · exact absurd h (by simp)

/-- **Counts never drift**: after every run each count is the length of its list, and no `allocate`
    has found a block on a list that was counted as empty. -/
theorem counts_never_drift {m : Memory} {ls : List Label} {s : State} {τ : List Event}
    (hrun : Machine.run step { mem := m } ls = some (s, τ)) :
    (∀ index, ∃ l, Chain 0 s.mem.word (s.cache.freeList index) l ∧
      s.cache.freeListSize index = l.length) ∧ ∀ index, .undercounted index ∉ τ := by
  have hinv := Machine.run_inv (fun s τ => Counted s ∧ τ = []) (fun {s τ l s' es} hi hs => by
      obtain ⟨hs', rfl⟩ := counted_step hi.1 hs
      exact ⟨hs', by rw [hi.2, List.append_nil]⟩) (τ := []) ⟨counted_init m, rfl⟩ hrun
  rw [List.nil_append] at hinv
  obtain ⟨hs, rfl⟩ := hinv
  refine ⟨fun index => ?_, fun index => List.not_mem_nil⟩
  obtain ⟨l, hl, -⟩ := hs.lists index
  exact ⟨l, hl, hs.count hl⟩

/-- Three blocks are fetched, one of them is freed again, and two of the three go back. -/
def threeFetched : List Label :=
  [.outside 4096 4104, .outside 4104 4112, .outside 4112 0, .allocate 8 4096 2, .deallocate 4096 8,
    .returnToCentralCache 8 0 3, .allocate 0 0 0]

theorem counts_never_drift_three : ∃ s τ, Machine.run step {} threeFetched = some (s, τ) ∧
    ∀ index, ∃ l, Chain 0 s.mem.word (s.cache.freeList index) l ∧
      s.cache.freeListSize index = l.length := by
  have hsome : (Machine.run step {} threeFetched).isSome = true := by decide
  obtain ⟨⟨s, τ⟩, hrun⟩ := Option.isSome_iff_exists.mp hsome
  exact ⟨s, τ, hrun, (counts_never_drift hrun).1⟩

end OneCache

end Pool
end EpollChat
