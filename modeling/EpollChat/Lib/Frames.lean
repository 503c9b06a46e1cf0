import Mathlib.Data.List.Basic
import Mathlib.Data.List.Infix

/-!
# Cutting a stream back into its frames

A sender writes items one behind the other, each as `code` says, and a reader gets the
stream in pieces it has no say in. `next` is how the reader looks at the front of what it
has: not enough yet, an item and how long it was, or nonsense. `drain` takes items off as
long as there are any, `feed` does so after each piece.

`Cuts` is what `next` has to know about `code`: it recognises a whole frame whatever stands
behind it, and it waits for more in front of a part of one. Then the pieces do not matter:
`feed_of_prefix` says that the reader has, after any pieces of a stream of frames, exactly
the items whose frames are complete, and `feed_all` that it has them all when the stream
has been read to the end.
-/

namespace Lib
namespace Frames

universe u v

variable {α : Type u} {β : Type v}

inductive Verdict (α : Type u) where
  | wait
  | item (a : α) (n : Nat)
  | bad
deriving DecidableEq, Repr

/-! ## 1. The reader -/

/-- Items off the front of `x`, what is left, and whether that is nonsense. -/
def drain (next : List β → Verdict α) : Nat → List β → List α × List β × Bool
  | 0, x => ([], x, false)
  | fuel + 1, x =>
      match next x with
      | .wait => ([], x, false)
      | .bad => ([], x, true)
      | .item a n =>
          let r := drain next fuel (x.drop n)
          (a :: r.1, r.2)

/-- Piece after piece, starting with `x` in the buffer; nonsense ends it. -/
def feed (next : List β → Verdict α) : List β → List (List β) → List α × List β × Bool
  | x, [] => ([], x, false)
  | x, c :: cs =>
      let r := drain next (x ++ c).length (x ++ c)
      if r.2.2 then r
      else
        let r' := feed next r.2.1 cs
        (r.1 ++ r'.1, r'.2)

/-! ## 2. A reader that knows the code -/

structure Cuts (next : List β → Verdict α) (code : α → List β) (ok : α → Prop) : Prop where
  nil : next [] = .wait
  whole : ∀ {a rest}, ok a → next (code a ++ rest) = .item a (code a).length
  part : ∀ {a x}, ok a → x <+: code a → x.length < (code a).length → next x = .wait

variable {next : List β → Verdict α} {code : α → List β} {ok : α → Prop}

/-- What is left is less than the next frame. -/
def Short (code : α → List β) (later : List α) (rest : List β) : Prop :=
  ∀ a l, later = a :: l → rest.length < (code a).length

theorem Cuts.code_length_pos (h : Cuts next code ok) {a : α} (ha : ok a) : 0 < (code a).length := by
  cases hc : code a with
  | cons b bs => simp
  | nil =>
    have h₁ : next (code a ++ []) = .item a (code a).length := h.whole ha
    rw [hc, List.append_nil, h.nil] at h₁
    exact absurd h₁ (by simp)

/-- How the items read, those to come and the rest make up what was read. -/
structure Cut (code : α → List β) (as : List α) (x : List β) (done later : List α) (rest : List β) :
    Prop where
  items : as = done ++ later
  bytes : x = (done.map code).flatten ++ rest
  within : rest <+: (later.map code).flatten
  short : Short code later rest

/-- **Draining** a head of a stream of frames gives the frames that are complete in it. -/
theorem drain_of_prefix (h : Cuts next code ok) : ∀ {as : List α} {x : List β} {fuel : Nat},
    (∀ a ∈ as, ok a) → x <+: (as.map code).flatten → x.length ≤ fuel →
    ∃ done later rest, drain next fuel x = (done, rest, false) ∧ Cut code as x done later rest := by
  intro as
  induction as with
  | nil =>
    intro x fuel _ hx _
    obtain rfl : x = [] := by simpa using hx
    refine ⟨[], [], [], ?_, rfl, rfl, List.prefix_refl _, fun a l hl => absurd hl (by simp)⟩
    cases fuel with
    | zero => rfl
    | succ fuel => rw [drain, h.nil]
  | cons a as ih =>
    intro x fuel hok hx hfuel
    have ha : ok a := hok a List.mem_cons_self
    rw [List.map_cons, List.flatten_cons] at hx
    by_cases hlen : (code a).length ≤ x.length
    · obtain ⟨y, rfl⟩ := List.prefix_of_prefix_length_le (List.prefix_append _ _) hx hlen
      have hpos := h.code_length_pos ha
      rw [List.length_append] at hfuel
      obtain ⟨fuel, rfl⟩ : ∃ k, fuel = k + 1 := ⟨fuel - 1, by omega⟩
      obtain ⟨done, later, rest, hd, hc⟩ := @ih y fuel (fun b hb => hok b (List.mem_cons_of_mem _ hb))
        ((List.prefix_append_right_inj _).mp hx) (by omega)
      refine ⟨a :: done, later, rest, ?_, ?_, ?_, hc.within, hc.short⟩
      · rw [drain, h.whole ha]
        dsimp only
        rw [List.drop_left, hd]
      · rw [hc.items]
        rfl
      · rw [List.map_cons, List.flatten_cons, List.append_assoc, ← hc.bytes]
    · have hpart : x <+: code a :=
        List.prefix_of_prefix_length_le hx (List.prefix_append _ _) (by omega)
      refine ⟨[], a :: as, x, ?_, rfl, rfl, ?_, fun b l hl => ?_⟩
      · cases fuel with
        | zero => rfl
        | succ fuel => rw [drain, h.part ha hpart (by omega)]
      · rw [List.map_cons, List.flatten_cons]
        exact hx
      · obtain ⟨rfl, -⟩ := List.cons.inj hl
        omega

/-- Two cuts one behind the other. -/
theorem Cut.trans {as done later done' later' : List α} {x rest y rest' : List β}
    (h : Cut code as x done later rest) (h' : Cut code later (rest ++ y) done' later' rest') :
    Cut code as (x ++ y) (done ++ done') later' rest' := by
  refine ⟨?_, ?_, h'.within, h'.short⟩
  · rw [h.items, h'.items, List.append_assoc]
  · rw [h.bytes, List.append_assoc, h'.bytes, List.map_append, List.flatten_append, List.append_assoc]

/-- **The pieces do not matter.** -/
theorem feed_of_prefix (h : Cuts next code ok) : ∀ {chunks : List (List β)} {as : List α} {x : List β},
    (∀ a ∈ as, ok a) → Short code as x → x ++ chunks.flatten <+: (as.map code).flatten →
    ∃ done later rest, feed next x chunks = (done, rest, false) ∧
      Cut code as (x ++ chunks.flatten) done later rest := by
  intro chunks
  induction chunks with
  | nil =>
    intro as x _ hshort hx
    rw [List.flatten_nil, List.append_nil] at hx ⊢
    exact ⟨[], as, x, rfl, rfl, rfl, hx, hshort⟩
  | cons c cs ih =>
    intro as x hok _ hx
    rw [List.flatten_cons, ← List.append_assoc] at hx ⊢
    obtain ⟨done, later, rest, hd, hc⟩ :=
      drain_of_prefix h hok ((List.prefix_append _ _).trans hx) (Nat.le_refl _)
    have hlater : ∀ a ∈ later, ok a := by
      intro a ha
      refine hok a ?_
      rw [hc.items]
      exact List.mem_append_right _ ha
    have hrest : rest ++ cs.flatten <+: (later.map code).flatten := by
      rw [hc.items, hc.bytes, List.map_append, List.flatten_append, List.append_assoc] at hx
      exact (List.prefix_append_right_inj _).mp hx
    obtain ⟨done', later', rest', hf, hc'⟩ := @ih later rest hlater hc.short hrest
    refine ⟨done ++ done', later', rest', ?_, hc.trans hc'⟩
    simp only [feed, hd, hf]
    rfl

/-- At the end of the stream nothing is left over. -/
theorem feed_all (h : Cuts next code ok) {chunks : List (List β)} {as : List α} (hok : ∀ a ∈ as, ok a)
    (hall : chunks.flatten = (as.map code).flatten) : feed next [] chunks = (as, [], false) := by
  have hshort : Short code as ([] : List β) := by
    rintro a l rfl
    exact h.code_length_pos (hok a List.mem_cons_self)
  obtain ⟨done, later, rest, hf, hc⟩ := feed_of_prefix h hok hshort (by rw [hall]; exact List.prefix_refl _)
  have hrest : rest = (later.map code).flatten := by
    have h₁ := hc.bytes
    rw [List.nil_append, hall, hc.items, List.map_append, List.flatten_append] at h₁
    exact (List.append_cancel_left h₁).symm
  cases later with
  | nil =>
    rw [hf, hc.items, hrest, List.append_nil]
    rfl
  | cons a l =>
    have h₁ := hc.short a l rfl
    rw [hrest, List.map_cons, List.flatten_cons, List.length_append] at h₁
    omega

end Frames
end Lib
