import Mathlib.Data.List.Basic
import Mathlib.Data.List.Infix

/-!
# First occurrences, and texts cut by a delimiter

`seek needle hay` is the suffix of `hay` at the first occurrence of `needle`. A needle
that is a word between two delimiters can only occur where the text has two
delimiters around exactly that word, so in a text whose words are free of the delimiter
the search goes from word to word: `seek_delim` skips one word, and
`delimited_prefix_iff` says when the next one is the word sought. Those two, rewritten
with, compute the search on any text that is given word by word.
-/

namespace Lib

universe u

variable {α : Type u} [DecidableEq α]

/-- The suffix that starts at the first occurrence of `needle`. -/
def seek (needle : List α) : List α → Option (List α)
  | [] => if needle = [] then some [] else none
  | c :: cs => if needle <+: c :: cs then some (c :: cs) else seek needle cs

theorem seek_found {needle hay : List α} (h : needle <+: hay) :
    seek needle hay = some hay := by
  cases hay with
  | nil => rw [seek, if_pos (List.prefix_nil.mp h)]
  | cons c cs => rw [seek, if_pos h]

/-- A needle does not start inside a stretch that lacks its first element. -/
theorem seek_append_of_not_mem {q : α} {needle : List α} :
    ∀ {w s : List α}, q ∉ w → seek (q :: needle) (w ++ s) = seek (q :: needle) s := by
  intro w
  induction w with
  | nil => intro s _; rfl
  | cons c cs ih =>
    intro s h
    simp only [List.mem_cons, not_or] at h
    rw [List.cons_append, seek, if_neg ?_, ih h.2]
    rintro ⟨t, ht⟩
    rw [List.cons_append] at ht
    injection ht with hq
    exact h.1 hq

theorem seek_eq_none_of_not_mem {q : α} {needle w : List α} (h : q ∉ w) :
    seek (q :: needle) w = none := by
  rw [← List.append_nil w, seek_append_of_not_mem h]
  simp [seek]

/-- One element sought: the suffix from its first occurrence. -/
theorem seek_singleton {q : α} {w s : List α} (h : q ∉ w) :
    seek [q] (w ++ q :: s) = some (q :: s) := by
  rw [seek_append_of_not_mem h]
  exact seek_found ⟨s, rfl⟩

/-! ## Delimited words -/

/-- Skip one word: the search for a delimited word stops at the next delimiter, or goes
    on behind it. -/
theorem seek_delim {q : α} {key w s : List α} (h : q ∉ w) :
    seek (q :: (key ++ [q])) (w ++ q :: s)
      = if key ++ [q] <+: s then some (q :: s) else seek (q :: (key ++ [q])) s := by
  rw [seek_append_of_not_mem h]
  by_cases hp : key ++ [q] <+: s
  · rw [if_pos hp]
    exact seek_found (List.cons_prefix_cons.mpr ⟨rfl, hp⟩)
  · rw [if_neg hp, seek, if_neg]
    intro hq
    exact hp (List.cons_prefix_cons.mp hq).2

omit [DecidableEq α] in
/-- A word and its closing delimiter start a text exactly when they are its first word. -/
theorem delimited_prefix_iff {q : α} :
    ∀ {key w s : List α}, q ∉ key → q ∉ w → (key ++ [q] <+: w ++ q :: s ↔ key = w) := by
  intro key
  induction key with
  | nil =>
    intro w s _ hw
    cases w with
    | nil => simp
    | cons c cs =>
      simp only [List.mem_cons, not_or] at hw
      simp [List.cons_prefix_cons, hw.1]
  | cons k ks ih =>
    intro w s hk hw
    simp only [List.mem_cons, not_or] at hk
    cases w with
    | nil =>
      simp only [List.cons_append, List.nil_append, List.cons_prefix_cons]
      exact ⟨fun h => absurd h.1.symm hk.1, fun h => absurd h (by simp)⟩
    | cons c cs =>
      simp only [List.mem_cons, not_or] at hw
      rw [List.cons_append, List.cons_append, List.cons_prefix_cons, ih hk.2 hw.2,
        List.cons.injEq]

omit [DecidableEq α] in
/-- Without a delimiter left, no delimited word is either. -/
theorem not_delimited_within {q : α} {key w : List α} (hw : q ∉ w) : ¬ key ++ [q] <+: w := by
  rintro ⟨t, rfl⟩
  exact hw (by simp)

omit [DecidableEq α] in
/-- The first word of a text is determined by the text, and so is what follows it. -/
theorem delimited_inj {q : α} {w w' s s' : List α} (hw : q ∉ w) (hw' : q ∉ w')
    (h : w ++ q :: s = w' ++ q :: s') : w = w' ∧ s = s' := by
  have hp : w ++ [q] <+: w' ++ q :: s' := ⟨s, by rw [← h, List.append_assoc, List.singleton_append]⟩
  obtain rfl := (delimited_prefix_iff hw hw').mp hp
  exact ⟨rfl, List.cons.inj (List.append_cancel_left h) |>.2⟩

omit [DecidableEq α] in
/-- Two ways to read a text as two parts: they are the same, or one of them takes a delimiter that
    is inside a part of the other. -/
theorem delimited_eq {q : α} {a b c d : List α} (h : a ++ q :: b = c ++ q :: d) :
    (a = c ∧ b = d) ∨ (∃ y, c = a ++ q :: y ∧ b = y ++ q :: d) ∨
      ∃ y, a = c ++ q :: y ∧ d = y ++ q :: b := by
  rcases List.append_eq_append_iff.mp h with ⟨w, hc, hb⟩ | ⟨w, ha, hd⟩
  · cases w with
    | nil =>
      rw [List.append_nil] at hc
      exact Or.inl ⟨hc.symm, (List.cons.inj hb).2⟩
    | cons e y =>
      obtain ⟨rfl, hrest⟩ := List.cons.inj hb
      exact Or.inr (Or.inl ⟨y, hc, hrest⟩)
  · cases w with
    | nil =>
      rw [List.append_nil] at ha
      exact Or.inl ⟨ha, (List.cons.inj hd).2.symm⟩
    | cons e y =>
      obtain ⟨rfl, hrest⟩ := List.cons.inj hd
      exact Or.inr (Or.inr ⟨y, ha, hrest⟩)

end Lib
