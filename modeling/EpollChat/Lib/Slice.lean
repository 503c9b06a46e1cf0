import Mathlib.Data.List.Basic
import Mathlib.Data.List.GetD

/-!
# Stores, slices and block copies

A contiguous store of cells is a function `Nat → α`; what C calls `memcpy` and
`memmove` is `put`, and what a pointer and a length denote is `slice`. The lemmas are
the four a copy needs: what a slice reads where the copy wrote, what it reads
elsewhere, how a slice splits, and how a slice is dropped from the front.

Everything is pointwise underneath (`getElem_slice`, `put_inside`, `put_outside`), so a
wrapped copy, in two pieces, is two `put`s and the arithmetic of their positions.
-/

namespace Lib

universe u

variable {α : Type u}

/-- The `n` cells from position `pos` on. -/
def slice (f : Nat → α) (pos n : Nat) : List α := (List.range n).map fun i => f (pos + i)

/-- Copy `src` over the cells from position `pos` on. -/
def put (f : Nat → α) (pos : Nat) (src : List α) : Nat → α := fun j =>
  if h : pos ≤ j ∧ j < pos + src.length then src.get ⟨j - pos, by omega⟩ else f j

/-! ## 1. Slices -/

@[simp] theorem length_slice (f : Nat → α) (pos n : Nat) : (slice f pos n).length = n := by
  simp [slice]

@[simp] theorem getElem_slice (f : Nat → α) (pos n i : Nat) (h : i < (slice f pos n).length) :
    (slice f pos n)[i] = f (pos + i) := by
  simp [slice]

theorem slice_add (f : Nat → α) (pos m n : Nat) :
    slice f pos (m + n) = slice f pos m ++ slice f (pos + m) n := by
  simp [slice, List.range_add, Nat.add_assoc]

theorem slice_congr {f g : Nat → α} {pos pos' n : Nat}
    (h : ∀ i, i < n → f (pos + i) = g (pos' + i)) : slice f pos n = slice g pos' n := by
  unfold slice
  exact List.map_congr_left fun i hi => h i (List.mem_range.mp hi)

theorem drop_slice (f : Nat → α) (pos n k : Nat) :
    (slice f pos n).drop k = slice f (pos + k) (n - k) := by
  apply List.ext_getElem
  · simp
  · intro i _ _
    simp [Nat.add_assoc]

theorem take_slice (f : Nat → α) (pos n k : Nat) (h : k ≤ n) :
    (slice f pos n).take k = slice f pos k := by
  obtain ⟨m, rfl⟩ := Nat.exists_eq_add_of_le h
  rw [slice_add]
  simp

/-! ## 2. Copies -/

theorem put_inside (f : Nat → α) (pos : Nat) (src : List α) (i : Nat) (h : i < src.length) :
    put f pos src (pos + i) = src[i] := by
  unfold put
  rw [dif_pos (by omega)]
  simp

theorem put_outside (f : Nat → α) {pos j : Nat} {src : List α}
    (h : j < pos ∨ pos + src.length ≤ j) : put f pos src j = f j := by
  unfold put
  rw [dif_neg (by omega)]

/-- Reading back what was copied. -/
theorem slice_put_same (f : Nat → α) (pos : Nat) (src : List α) :
    slice (put f pos src) pos src.length = src := by
  apply List.ext_getElem
  · simp
  · intro i _ h₂
    rw [getElem_slice, put_inside f pos src i h₂]

/-- Moving a slice, within a store or from one to another. -/
theorem slice_put_slice (f g : Nat → α) (pos p n : Nat) :
    slice (put f pos (slice g p n)) pos n = slice g p n := by
  have h := slice_put_same f pos (slice g p n)
  rwa [length_slice] at h

/-- Reading beside what was copied. -/
theorem slice_put_of_disjoint (f : Nat → α) {pos p n : Nat} {src : List α}
    (h : p + n ≤ pos ∨ pos + src.length ≤ p) : slice (put f pos src) p n = slice f p n :=
  slice_congr fun i hi => put_outside f (by omega)

/-- **Appending in place**: a copy that starts where a slice ends extends it. -/
theorem slice_put_append (f : Nat → α) (pos n : Nat) (src : List α) :
    slice (put f (pos + n) src) pos (n + src.length) = slice f pos n ++ src := by
  rw [slice_add, slice_put_same, slice_put_of_disjoint f (Or.inl (Nat.le_refl _))]

end Lib
