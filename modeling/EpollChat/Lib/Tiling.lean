import Mathlib.Data.Set.Basic
import Mathlib.Logic.Function.Basic
import Mathlib.Order.Interval.Finset.Nat

/-!
# Pieces of an address space

Named intervals of natural numbers, each given by its start and its length, that do not overlap
and together make up a given set. `piece i` is the interval called `i`, if there is one.

Three things are done with such a tiling: a new piece is laid beside the others, a piece is
split, and a piece is joined with the one behind it. The last lemma counts pieces of one length.
-/

namespace Lib

universe u

variable {ι : Type u}

structure Tiles (piece : ι → Option (Nat × Nat)) (S : Set Nat) : Prop where
  pos : ∀ {i a n}, piece i = some (a, n) → 0 < n
  apart : ∀ {i j a n b m}, piece i = some (a, n) → piece j = some (b, m) → i ≠ j →
    a + n ≤ b ∨ b + m ≤ a
  union : ∀ x, x ∈ S ↔ ∃ i a n, piece i = some (a, n) ∧ a ≤ x ∧ x < a + n

namespace Tiles

variable {piece : ι → Option (Nat × Nat)} {S : Set Nat}

/-- No address is in two pieces. -/
theorem unique (h : Tiles piece S) {i j : ι} {a n b m x : Nat} (hi : piece i = some (a, n))
    (hj : piece j = some (b, m)) (hx : a ≤ x ∧ x < a + n) (hx' : b ≤ x ∧ x < b + m) : i = j := by
  by_contra hne
  have := h.apart hi hj hne
  omega

variable [DecidableEq ι]

/-- The pieces after one of them has become another, or has come or gone. -/
theorem update_cases {piece : ι → Option (Nat × Nat)} {i j : ι} {v : Option (Nat × Nat)} {e : Nat × Nat}
    (h : Function.update piece i v j = some e) : (j = i ∧ v = some e) ∨ (j ≠ i ∧ piece j = some e) := by
  by_cases hj : j = i
  · rw [hj, Function.update_self] at h
    exact Or.inl ⟨hj, h⟩
  · rw [Function.update_of_ne hj] at h
    exact Or.inr ⟨hj, h⟩

/-- A piece that shares no address with the others is added. -/
theorem add (h : Tiles piece S) {i : ι} {a n : Nat} (hi : piece i = none) (hn : 0 < n)
    (hnew : ∀ x, a ≤ x → x < a + n → x ∉ S) :
    Tiles (Function.update piece i (some (a, n))) (S ∪ {x | a ≤ x ∧ x < a + n}) := by
  have hold : ∀ {j b m}, piece j = some (b, m) → a + n ≤ b ∨ b + m ≤ a := by
    intro j b m hj
    by_contra hover
    have hm := h.pos hj
    refine hnew (max a b) (by omega) (by omega) ((h.union _).mpr ⟨j, b, m, hj, by omega, by omega⟩)
  refine ⟨?_, ?_, ?_⟩
  · intro j b m hj
    rcases update_cases hj with ⟨-, he⟩ | ⟨-, hj⟩
    · obtain ⟨rfl, rfl⟩ := Prod.mk.inj (Option.some.inj he)
      exact hn
    · exact h.pos hj
  · intro j k b m c l hj hk hne
    rcases update_cases hj with ⟨rfl, he⟩ | ⟨-, hj'⟩
    · obtain ⟨rfl, rfl⟩ := Prod.mk.inj (Option.some.inj he)
      rcases update_cases hk with ⟨rfl, -⟩ | ⟨-, hk⟩
      · exact absurd rfl hne
      · exact hold hk
    · rcases update_cases hk with ⟨rfl, he⟩ | ⟨-, hk⟩
      · obtain ⟨rfl, rfl⟩ := Prod.mk.inj (Option.some.inj he)
        exact (hold hj').symm
      · exact h.apart hj' hk hne
  · intro x
    constructor
    · rintro (hx | ⟨h₁, h₂⟩)
      · obtain ⟨j, b, m, hj, hb⟩ := (h.union x).mp hx
        refine ⟨j, b, m, ?_, hb⟩
        rw [Function.update_of_ne]
        · exact hj
        · rintro rfl
          rw [hi] at hj
          exact absurd hj (by simp)
      · exact ⟨i, a, n, Function.update_self .., h₁, h₂⟩
    · rintro ⟨j, b, m, hj, hb⟩
      rcases update_cases hj with ⟨-, he⟩ | ⟨-, hj⟩
      · obtain ⟨rfl, rfl⟩ := Prod.mk.inj (Option.some.inj he)
        exact Or.inr hb
      · exact Or.inl ((h.union x).mpr ⟨j, b, m, hj, hb⟩)

/-- A piece is cut in two, and the back part gets a name of its own. -/
theorem split (h : Tiles piece S) {i j : ι} {a n m : Nat} (hi : piece i = some (a, n + m))
    (hj : piece j = none) (hn : 0 < n) (hm : 0 < m) :
    Tiles (Function.update (Function.update piece i (some (a, n))) j (some (a + n, m))) S := by
  have hne : i ≠ j := by
    rintro rfl
    rw [hi] at hj
    exact absurd hj (by simp)
  -- every new piece lies in an old one
  have hback : ∀ {k b l}, Function.update (Function.update piece i (some (a, n))) j (some (a + n, m)) k
      = some (b, l) → 0 < l ∧ ((k = j ∧ b = a + n ∧ l = m) ∨ (k = i ∧ b = a ∧ l = n) ∨
        (k ≠ i ∧ k ≠ j ∧ piece k = some (b, l))) := by
    intro k b l hk
    rcases update_cases hk with ⟨rfl, he⟩ | ⟨hkj, hk⟩
    · obtain ⟨rfl, rfl⟩ := Prod.mk.inj (Option.some.inj he)
      exact ⟨hm, Or.inl ⟨rfl, rfl, rfl⟩⟩
    · rcases update_cases hk with ⟨rfl, he⟩ | ⟨hki, hk⟩
      · obtain ⟨rfl, rfl⟩ := Prod.mk.inj (Option.some.inj he)
        exact ⟨hn, Or.inr (Or.inl ⟨rfl, rfl, rfl⟩)⟩
      · exact ⟨h.pos hk, Or.inr (Or.inr ⟨hki, hkj, hk⟩)⟩
  refine ⟨fun hk => (hback hk).1, ?_, ?_⟩
  · intro k k' b l c l' hk hk' hkk
    rcases (hback hk).2 with ⟨rfl, rfl, rfl⟩ | ⟨rfl, rfl, rfl⟩ | ⟨hki, hkj, hold⟩
    · rcases (hback hk').2 with ⟨rfl, rfl, rfl⟩ | ⟨rfl, rfl, rfl⟩ | ⟨hki', hkj', hk'⟩
      · exact absurd rfl hkk
      · exact Or.inr (Nat.le_refl _)
      · have := h.apart hi hk' (Ne.symm hki')
        omega
    · rcases (hback hk').2 with ⟨rfl, rfl, rfl⟩ | ⟨rfl, rfl, rfl⟩ | ⟨hki', hkj', hk'⟩
      · exact Or.inl (Nat.le_refl _)
      · exact absurd rfl hkk
      · have := h.apart hi hk' (Ne.symm hki')
        omega
    · rcases (hback hk').2 with ⟨rfl, rfl, rfl⟩ | ⟨rfl, rfl, rfl⟩ | ⟨hki', hkj', hk'⟩
      · have := h.apart hi hold (Ne.symm hki)
        omega
      · have := h.apart hi hold (Ne.symm hki)
        omega
      · exact h.apart hold hk' hkk
  · intro x
    rw [h.union x]
    constructor
    · rintro ⟨k, b, l, hk, hb⟩
      by_cases hki : k = i
      · rw [hki, hi] at hk
        obtain ⟨rfl, rfl⟩ := Prod.mk.inj (Option.some.inj hk)
        by_cases hx : x < a + n
        · refine ⟨i, a, n, ?_, hb.1, hx⟩
          rw [Function.update_of_ne hne, Function.update_self]
        · exact ⟨j, a + n, m, Function.update_self .., by omega, by omega⟩
      · refine ⟨k, b, l, ?_, hb⟩
        rw [Function.update_of_ne, Function.update_of_ne hki]
        · exact hk
        · rintro rfl
          rw [hj] at hk
          exact absurd hk (by simp)
    · rintro ⟨k, b, l, hk, hb⟩
      rcases (hback hk).2 with ⟨rfl, rfl, rfl⟩ | ⟨rfl, rfl, rfl⟩ | ⟨-, -, hk⟩
      · exact ⟨i, a, n + l, hi, by omega, by omega⟩
      · exact ⟨k, b, l + m, hi, by omega, by omega⟩
      · exact ⟨k, b, l, hk, hb⟩

/-- A piece takes in the one behind it. -/
theorem join (h : Tiles piece S) {i j : ι} {a n m : Nat} (hi : piece i = some (a, n))
    (hj : piece j = some (a + n, m)) :
    Tiles (Function.update (Function.update piece i (some (a, n + m))) j none) S := by
  have hn := h.pos hi
  have hm := h.pos hj
  have hne : i ≠ j := by
    rintro rfl
    rw [hi] at hj
    obtain ⟨he, -⟩ := Prod.mk.inj (Option.some.inj hj)
    omega
  have hback : ∀ {k b l}, Function.update (Function.update piece i (some (a, n + m))) j none k = some (b, l) →
      (k = i ∧ b = a ∧ l = n + m) ∨ (k ≠ i ∧ k ≠ j ∧ piece k = some (b, l)) := by
    intro k b l hk
    rcases update_cases hk with ⟨-, he⟩ | ⟨hkj, hk⟩
    · exact absurd he (by simp)
    · rcases update_cases hk with ⟨rfl, he⟩ | ⟨hki, hk⟩
      · obtain ⟨rfl, rfl⟩ := Prod.mk.inj (Option.some.inj he)
        exact Or.inl ⟨rfl, rfl, rfl⟩
      · exact Or.inr ⟨hki, hkj, hk⟩
  have hboth : ∀ {k b l}, k ≠ i → k ≠ j → piece k = some (b, l) → a + (n + m) ≤ b ∨ b + l ≤ a := by
    intro k b l hki hkj hk
    have h₁ := h.apart hi hk (Ne.symm hki)
    have h₂ := h.apart hj hk (Ne.symm hkj)
    have := h.pos hk
    omega
  refine ⟨?_, ?_, ?_⟩
  · intro k b l hk
    rcases hback hk with ⟨-, -, rfl⟩ | ⟨-, -, hk⟩
    · omega
    · exact h.pos hk
  · intro k k' b l c l' hk hk' hkk
    rcases hback hk with ⟨rfl, rfl, rfl⟩ | ⟨hki, hkj, hold⟩
    · rcases hback hk' with ⟨rfl, -, -⟩ | ⟨hki', hkj', hk'⟩
      · exact absurd rfl hkk
      · exact hboth hki' hkj' hk'
    · rcases hback hk' with ⟨rfl, rfl, rfl⟩ | ⟨hki', hkj', hk'⟩
      · exact (hboth hki hkj hold).symm
      · exact h.apart hold hk' hkk
  · intro x
    rw [h.union x]
    have hnew : Function.update (Function.update piece i (some (a, n + m))) j none i = some (a, n + m) := by
      rw [Function.update_of_ne hne, Function.update_self]
    constructor
    · rintro ⟨k, b, l, hk, hb⟩
      by_cases hki : k = i
      · rw [hki, hi] at hk
        obtain ⟨rfl, rfl⟩ := Prod.mk.inj (Option.some.inj hk)
        exact ⟨i, a, n + m, hnew, by omega, by omega⟩
      · by_cases hkj : k = j
        · rw [hkj, hj] at hk
          obtain ⟨rfl, rfl⟩ := Prod.mk.inj (Option.some.inj hk)
          exact ⟨i, a, n + m, hnew, by omega, by omega⟩
        · refine ⟨k, b, l, ?_, hb⟩
          rw [Function.update_of_ne hkj, Function.update_of_ne hki]
          exact hk
    · rintro ⟨k, b, l, hk, hb⟩
      rcases hback hk with ⟨rfl, rfl, rfl⟩ | ⟨-, -, hk⟩
      · by_cases hx : x < b + n
        · exact ⟨k, b, n, hi, hb.1, hx⟩
        · exact ⟨j, b + n, m, hj, by omega, by omega⟩
      · exact ⟨k, b, l, hk, hb⟩

end Tiles

/-- **There is room for only so many**: intervals of length `n` that lie apart below `N`. -/
theorem length_mul_le_of_apart {l : List Nat} {n N : Nat}
    (hapart : l.Pairwise fun a b => a + n ≤ b ∨ b + n ≤ a) (hend : ∀ a ∈ l, a + n ≤ N) :
    l.length * n ≤ N := by
  have hcovered : ∃ s : Finset Nat, s.card = l.length * n ∧ ∀ x ∈ s, ∃ a ∈ l, a ≤ x ∧ x < a + n := by
    clear hend
    induction l with
    | nil => exact ⟨∅, by simp, fun x hx => absurd hx (Finset.notMem_empty x)⟩
    | cons a l ih =>
      obtain ⟨hfirst, hrest⟩ := List.pairwise_cons.mp hapart
      obtain ⟨s, hcard, hs⟩ := ih hrest
      have hdisj : Disjoint (Finset.Ico a (a + n)) s := by
        refine Finset.disjoint_left.mpr fun x hx hxs => ?_
        obtain ⟨b, hb, hle, hlt⟩ := hs x hxs
        have := Finset.mem_Ico.mp hx
        have := hfirst b hb
        omega
      refine ⟨Finset.Ico a (a + n) ∪ s, ?_, fun x hx => ?_⟩
      · rw [Finset.card_union_of_disjoint hdisj, Nat.card_Ico, hcard, List.length_cons, Nat.succ_mul]
        omega
      · rcases Finset.mem_union.mp hx with hx | hx
        · exact ⟨a, List.mem_cons_self, Finset.mem_Ico.mp hx⟩
        · obtain ⟨b, hb, hbx⟩ := hs x hx
          exact ⟨b, List.mem_cons_of_mem _ hb, hbx⟩
  obtain ⟨s, hcard, hs⟩ := hcovered
  have hsub : s ⊆ Finset.range N := by
    intro x hx
    obtain ⟨a, ha, hax⟩ := hs x hx
    have := hend a ha
    exact Finset.mem_range.mpr (by omega)
  rw [← hcard, ← Finset.card_range N]
  exact Finset.card_le_card hsub

end Lib
