import Mathlib.Algebra.BigOperators.Group.Finset.Piecewise
import Mathlib.Algebra.Order.BigOperators.Group.Finset

/-!
# Finitely many threads

The local states of finitely many threads are a function, and a step updates it at one
thread. A quantity that is summed over all threads then changes by what that one thread
gained or lost.

Threads that share several pools of things can wait for each other. `Knot` is the exact form
of it: a set of threads, each waiting for a pool that is empty and whose things are all with
members of the set. Nothing outside can undo a knot.
-/

namespace Lib
namespace Threads

variable {ι α M : Type*} [Fintype ι] [DecidableEq ι] [AddCommMonoid M]

/-- The sum over all threads after one of them has moved. -/
theorem sum_update (g : α → M) (f : ι → α) (t : ι) (a : α) :
    (∑ u, g (Function.update f t a u)) + g (f t) = (∑ u, g (f u)) + g a := by
  have h₁ : (fun u => g (Function.update f t a u)) = Function.update (fun u => g (f u)) t (g a) := by
    funext u
    by_cases hu : u = t
    · subst hu; rw [Function.update_self, Function.update_self]
    · rw [Function.update_of_ne hu, Function.update_of_ne hu]
  have h₂ := Finset.sum_update_of_mem (Finset.mem_univ t) (fun u => g (f u)) (g a)
  have h₃ := Finset.add_sum_erase Finset.univ (fun u => g (f u)) (Finset.mem_univ t)
  rw [Finset.sdiff_singleton_eq_erase] at h₂
  rw [h₁, h₂, ← h₃]
  ac_rfl

/-- An account of the threads' shares stays right if the moving thread's share and the two
    sides of the account change together. -/
theorem add_sum_update [IsCancelAdd M] {g : α → M} {f : ι → α} {t : ι} {x : α} {a a' b b' : M}
    (h : a + ∑ u, g (f u) = b) (hmove : a' + g x + b = b' + (a + g (f t))) :
    a' + ∑ u, g (Function.update f t x u) = b' := by
  have hsum := sum_update g f t x
  refine add_right_cancel (b := a + g (f t)) ?_
  calc a' + (∑ u, g (Function.update f t x u)) + (a + g (f t))
      = a' + a + ((∑ u, g (Function.update f t x u)) + g (f t)) := by ac_rfl
    _ = a' + a + ((∑ u, g (f u)) + g x) := by rw [hsum]
    _ = a' + g x + (a + ∑ u, g (f u)) := by ac_rfl
    _ = b' + (a + g (f t)) := by rw [h, hmove]

omit [DecidableEq ι] in
/-- Each thread has at most the sum. -/
theorem le_sum (g : α → Nat) (f : ι → α) (t : ι) : g (f t) ≤ ∑ u, g (f u) :=
  Finset.single_le_sum (f := fun u => g (f u)) (fun _ _ => Nat.zero_le _) (Finset.mem_univ t)

/-! ## Knots -/

section

/-- `free` is what is left in a pool, `held` what a thread has from it. -/
structure Waits (T P : Type*) where
  free : P → Nat
  held : T → P → Nat
  waitsFor : T → Option P

variable {T P : Type*} {w : Waits T P} {D : T → Prop}

/-- The threads of `D` wait for each other. -/
def Waits.Knot (w : Waits T P) (D : T → Prop) : Prop :=
  (∃ t, D t) ∧ ∀ t, D t → ∃ p, w.waitsFor t = some p ∧ w.free p = 0 ∧ ∀ u, 0 < w.held u p → D u

/-- A pool that is only ever empty because it is held, and whose holders never wait, is in no
    knot. -/
theorem Waits.Knot.waitsFor_ne {p : P} (hk : w.Knot D) (hholder : w.free p = 0 → ∃ u, 0 < w.held u p)
    (hgo : ∀ u, 0 < w.held u p → w.waitsFor u = none) {t : T} (ht : D t) : w.waitsFor t ≠ some p := by
  intro hp
  obtain ⟨p', hp', hfree, hall⟩ := hk.2 t ht
  obtain rfl : p = p' := Option.some.inj (hp.symm.trans hp')
  obtain ⟨u, hu⟩ := hholder hfree
  obtain ⟨q, hq, -⟩ := hk.2 u (hall u hu)
  exact absurd ((hgo u hu).symm.trans hq) (by simp)

end

end Threads
end Lib
