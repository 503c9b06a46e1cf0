import Mathlib.Data.List.Basic
import Mathlib.Data.List.Sort

/-!
# Reading a list under a limit

Two ways to read no more than `n` elements at a time, and exactly when each of them gives
what was asked for. The first is a limit that is applied before a filter instead of after
it. The second reads a table page by page, each page being the first `n` rows behind the key
of the last row read: rows with equal keys are told apart by nothing, so a page that ends
among them loses the rest.
-/

namespace Lib

universe u v

/-! ## 1. A limit before a filter -/

section

variable {α : Type u} {p : α → Bool} {n : Nat}

theorem filter_take_length_lt {l : List α} {a : α} (ha : a ∈ l.take n) (hp : p a = false) :
    ((l.take n).filter p).length < n := by
  have hlt : ((l.take n).filter p).length < (l.take n).length :=
    List.length_filter_lt_length_iff_exists.mpr ⟨a, ha, by simp [hp]⟩
  exact Nat.lt_of_lt_of_le hlt (List.length_take_le n l)

/-- **The limit may come first** exactly if it drops nothing for which there would have been
    room: all of the first `n` are wanted, or none of the others is. -/
theorem filter_take_eq_iff (l : List α) :
    (l.take n).filter p = (l.filter p).take n
      ↔ (∀ a ∈ l.take n, p a = true) ∨ ∀ a ∈ l.drop n, p a = false := by
  have hsplit : l.filter p = (l.take n).filter p ++ (l.drop n).filter p := by
    rw [← List.filter_append, List.take_append_drop]
  constructor
  · intro h
    by_contra hnot
    rw [not_or] at hnot
    obtain ⟨hfirst, hrest⟩ := hnot
    push Not at hfirst hrest
    obtain ⟨a, ha, hpa⟩ := hfirst
    obtain ⟨b, hb, hpb⟩ := hrest
    -- there is room left, and something to fill it
    have hlt := filter_take_length_lt ha (by simpa using hpa)
    have hpos : 0 < ((l.drop n).filter p).length :=
      List.length_pos_of_mem (List.mem_filter.mpr ⟨hb, by simpa using hpb⟩)
    have hlen := congrArg List.length h
    rw [hsplit, List.length_take, List.length_append] at hlen
    omega
  · intro h
    rcases h with h | h
    · have hall : (l.take n).filter p = l.take n := List.filter_eq_self.mpr h
      rcases Nat.lt_or_ge l.length n with hl | hl
      · have htake : l.take n = l := List.take_of_length_le (Nat.le_of_lt hl)
        rw [htake] at hall ⊢
        rw [hall, htake]
      · have hlen : (l.take n).length = n := by rw [List.length_take, Nat.min_eq_left hl]
        rw [hsplit, hall, List.take_append_of_le_length (Nat.le_of_eq hlen.symm),
          List.take_of_length_le (Nat.le_of_eq hlen)]
    · have hnone : (l.drop n).filter p = [] :=
        List.filter_eq_nil_iff.mpr fun a ha => by simp [h a ha]
      have hle : ((l.take n).filter p).length ≤ n :=
        Nat.le_trans (List.length_filter_le ..) (List.length_take_le n l)
      rw [hsplit, hnone, List.append_nil, List.take_of_length_le hle]

end

/-! ## 2. Pages behind a key -/

section

variable {α : Type u} {κ : Type v} [LinearOrder κ] (key : α → κ)

/-- The rows with a key behind `last`. -/
def after (rows : List α) (last : κ) : List α := rows.filter fun a => decide (last < key a)

/-- The rows in the order of their keys, rows with equal keys in any order. -/
def OrdersBy (order : List α → List α) : Prop :=
  ∀ l, (order l).Perm l ∧ (order l).Pairwise fun a b => key a ≤ key b

/-- The keys behind `last`, in order. -/
def keysAfter (rows : List α) (last : κ) : List κ :=
  ((after key rows last).map key).insertionSort (· ≤ ·)

/-- What request number `k` for the rows behind `last` is answered with. A request that is not
    served gets no rows. -/
def page (n : Nat) (order : Nat → List α → List α) (served : Nat → Bool) (rows : List α) (k : Nat)
    (last : κ) : List α :=
  if served k then (order k (after key rows last)).take n else []

/-- Ask for one page after the other, up to the first empty one. `none` means that `fuel`
    requests were not enough. -/
def pageThrough (n : Nat) (order : Nat → List α → List α) (served : Nat → Bool) (rows : List α) :
    Nat → Nat → κ → Option (List α)
  | 0, _, _ => none
  | fuel + 1, k, last =>
      match (page key n order served rows k last).getLast? with
      | none => some []
      | some a =>
          (pageThrough n order served rows fuel (k + 1) (key a)).map
            (page key n order served rows k last ++ ·)

/-- Every page that has rows left to show is served, from request `k` on, and does not start
    with the key the page before it ended with. -/
def CleanPages (n : Nat) (served : Nat → Bool) (k : Nat) (keys : List κ) : Prop :=
  ∀ j, n * j < keys.length → served (k + j) = true ∧ (0 < j → keys[n * j - 1]? ≠ keys[n * j]?)

variable {key} {n : Nat} {served : Nat → Bool}

theorem mem_after {rows : List α} {last : κ} {a : α} :
    a ∈ after key rows last ↔ a ∈ rows ∧ last < key a := by
  simp [after]

omit [LinearOrder κ] in
/-- The first page, and the rest. -/
theorem cleanPages_iff {k : Nat} {keys : List κ} (hn : 0 < n) (hne : keys ≠ []) :
    CleanPages n served k keys ↔
      served k = true ∧ (n < keys.length → keys[n - 1]? ≠ keys[n]?) ∧
        CleanPages n served (k + 1) (keys.drop n) := by
  have hget : ∀ j, (keys.drop n)[n * j]? = keys[n * (j + 1)]? := by
    intro j
    rw [List.getElem?_drop, Nat.mul_succ, Nat.add_comm]
  have hget' : ∀ j, 0 < j → (keys.drop n)[n * j - 1]? = keys[n * (j + 1) - 1]? := by
    intro j hj
    have hpos : 0 < n * j := Nat.mul_pos hn hj
    rw [List.getElem?_drop, Nat.mul_succ]
    congr 1
    omega
  have hlen : ∀ j, n * j < (keys.drop n).length ↔ n * (j + 1) < keys.length := by
    intro j
    rw [List.length_drop, Nat.mul_succ]
    omega
  constructor
  · intro h
    refine ⟨(h 0 (by simpa using List.length_pos_of_ne_nil hne)).1, fun hlt => ?_, fun j hj => ?_⟩
    · have h₁ := (h 1 (by simpa using hlt)).2 Nat.one_pos
      simpa using h₁
    · obtain ⟨hs, hd⟩ := h (j + 1) ((hlen j).mp hj)
      refine ⟨by rw [Nat.add_assoc, Nat.add_comm 1 j]; exact hs, fun hpos => ?_⟩
      rw [hget j, hget' j hpos]
      exact hd (Nat.succ_pos j)
  · rintro ⟨hs, hfirst, hrest⟩ j hj
    cases j with
    | zero => exact ⟨hs, fun h => absurd h (Nat.lt_irrefl 0)⟩
    | succ j =>
      obtain ⟨hs', hd⟩ := hrest j ((hlen j).mpr hj)
      refine ⟨by rw [Nat.add_comm j 1, ← Nat.add_assoc]; exact hs', fun _ => ?_⟩
      cases j with
      | zero => simpa using hfirst (by simpa using hj)
      | succ j =>
        rw [← hget (j + 1), ← hget' (j + 1) (Nat.succ_pos j)]
        exact hd (Nat.succ_pos j)

/-- Whatever the order among equal keys, the keys come in one order. -/
theorem keysAfter_eq {rows l : List α} {last : κ} (hperm : l.Perm (after key rows last))
    (hsort : l.Pairwise fun a b => key a ≤ key b) : keysAfter key rows last = l.map key := by
  refine List.Perm.eq_of_pairwise' (List.pairwise_insertionSort _ _)
    (List.pairwise_map.mpr hsort) ?_
  exact (List.perm_insertionSort _ _).trans (hperm.map key).symm

/-- In a sorted list no key of a page is behind that of its last row. -/
theorem key_le_getLast {l : List α} {a : α} (hsort : l.Pairwise fun a b => key a ≤ key b)
    (ha : l.getLast? = some a) : ∀ x ∈ l, key x ≤ key a := by
  obtain ⟨l', rfl⟩ := List.getLast?_eq_some_iff.mp ha
  intro x hx
  rcases List.mem_append.mp hx with hx | hx
  · exact (List.pairwise_append.mp hsort).2.2 x hx a List.mem_cons_self
  · rw [List.mem_singleton.mp hx]

/-- The rows behind the last one of a page are those the page left, up to equal keys. -/
theorem after_getLast {rows l : List α} {last : κ} {a : α} (hperm : l.Perm (after key rows last))
    (hsort : l.Pairwise fun a b => key a ≤ key b) (ha : (l.take n).getLast? = some a) :
    (after key rows (key a)).Perm ((l.drop n).filter fun x => decide (key a < key x)) := by
  have hmem : a ∈ l := List.mem_of_mem_take (List.mem_of_getLast? ha)
  have hlast : last < key a := (mem_after.mp (hperm.mem_iff.mp hmem)).2
  have hagain : after key rows (key a)
      = (after key rows last).filter fun x => decide (key a < key x) := by
    rw [after, after, List.filter_filter]
    refine List.filter_congr fun x _ => ?_
    have himp : key a < key x → last < key x := fun h => lt_trans hlast h
    simpa using himp
  have hnone : ((l.take n).filter fun x => decide (key a < key x)) = [] := by
    refine List.filter_eq_nil_iff.mpr fun x hx => ?_
    have hle := key_le_getLast (hsort.sublist (List.take_sublist n l)) ha x hx
    simpa using hle
  rw [hagain]
  refine (hperm.symm.filter _).trans ?_
  rw [← List.take_append_drop n l, List.filter_append, List.take_append_drop, hnone]
  exact List.Perm.refl _

omit [LinearOrder κ] in
/-- The key of a page's last row, and of the row behind it. -/
theorem keys_at_cut (key : α → κ) {l : List α} {a : α} (hlt : n < l.length) (hn : 0 < n)
    (ha : (l.take n).getLast? = some a) :
    ∃ b bs, l.drop n = b :: bs ∧ (l.map key)[n - 1]? = some (key a) ∧
      (l.map key)[n]? = some (key b) := by
  cases hd : l.drop n with
  | nil => exact absurd (List.drop_eq_nil_iff.mp hd) (by omega)
  | cons b bs =>
    have hb : (l.drop n)[0]? = some b := by rw [hd]; rfl
    rw [List.getElem?_drop, Nat.add_zero] at hb
    rw [List.getLast?_eq_getElem?, List.length_take, Nat.min_eq_left (Nat.le_of_lt hlt),
      List.getElem?_take_of_lt (by omega)] at ha
    refine ⟨b, bs, rfl, ?_, ?_⟩
    · rw [List.getElem?_map, ha]
      rfl
    · rw [List.getElem?_map, hb]
      rfl

/-- Behind a clean end the whole rest is left. -/
theorem after_perm_drop {rows l : List α} {last : κ} {a : α} (hperm : l.Perm (after key rows last))
    (hsort : l.Pairwise fun a b => key a ≤ key b) (hn : 0 < n)
    (ha : (l.take n).getLast? = some a)
    (hclean : n < l.length → (l.map key)[n - 1]? ≠ (l.map key)[n]?) :
    (after key rows (key a)).Perm (l.drop n) := by
  have hall : ((l.drop n).filter fun x => decide (key a < key x)) = l.drop n := by
    by_cases hlt : n < l.length
    · obtain ⟨b, bs, hdrop, hka, hkb⟩ := keys_at_cut key hlt hn ha
      have hne : key a ≠ key b := fun h => hclean hlt (by rw [hka, hkb, h])
      have hsplit := hsort
      rw [← List.take_append_drop n l, List.pairwise_append, hdrop] at hsplit
      have hab : key a < key b :=
        lt_of_le_of_ne (hsplit.2.2 a (List.mem_of_getLast? ha) b List.mem_cons_self) hne
      refine List.filter_eq_self.mpr fun x hx => decide_eq_true ?_
      rw [hdrop] at hx
      rcases List.mem_cons.mp hx with rfl | hx
      · exact hab
      · exact lt_of_lt_of_le hab ((List.pairwise_cons.mp hsplit.2.1).1 x hx)
    · rw [List.drop_eq_nil_iff.mpr (by omega), List.filter_nil]
  rw [← hall]
  exact after_getLast hperm hsort ha

/-- Behind an end among equal keys it is not. -/
theorem after_length_lt_drop {rows l : List α} {last : κ} {a : α}
    (hperm : l.Perm (after key rows last)) (hsort : l.Pairwise fun a b => key a ≤ key b)
    (hn : 0 < n) (ha : (l.take n).getLast? = some a) (hlt : n < l.length)
    (heq : (l.map key)[n - 1]? = (l.map key)[n]?) :
    (after key rows (key a)).length < (l.drop n).length := by
  obtain ⟨b, bs, hdrop, hka, hkb⟩ := keys_at_cut key hlt hn ha
  have hab : key a = key b := by
    rw [hka, hkb] at heq
    exact Option.some.inj heq
  rw [(after_getLast hperm hsort ha).length_eq]
  refine List.length_filter_lt_length_iff_exists.mpr ⟨b, ?_, by simp [hab]⟩
  rw [hdrop]
  exact List.mem_cons_self

/-- What is known of the rows paging has brought in, whether or not they are all. -/
structure Received (key : α → κ) (rows : List α) (last : κ) (received : List α) : Prop where
  sorted : received.Pairwise fun a b => key a ≤ key b
  behind : ∀ a ∈ received, last < key a
  length_le : received.length ≤ (after key rows last).length

theorem received_nil (rows : List α) (last : κ) : Received key rows last [] :=
  ⟨List.Pairwise.nil, fun _ ha => absurd ha List.not_mem_nil, Nat.zero_le _⟩

/-- A page, and what comes in behind its last row. -/
theorem Received.append {rows l received : List α} {last : κ} {a : α}
    (hperm : l.Perm (after key rows last)) (hsort : l.Pairwise fun a b => key a ≤ key b)
    (ha : (l.take n).getLast? = some a) (h : Received key rows (key a) received) :
    Received key rows last (l.take n ++ received) := by
  have htake : (l.take n).Pairwise fun a b => key a ≤ key b :=
    hsort.sublist (List.take_sublist n l)
  have hmem : ∀ x ∈ l.take n, last < key x :=
    fun x hx => (mem_after.mp (hperm.mem_iff.mp (List.mem_of_mem_take hx))).2
  refine ⟨List.pairwise_append.mpr ⟨htake, h.sorted, ?_⟩, ?_, ?_⟩
  · intro x hx y hy
    exact le_of_lt (lt_of_le_of_lt (key_le_getLast htake ha x hx) (h.behind y hy))
  · intro x hx
    rcases List.mem_append.mp hx with hx | hx
    · exact hmem x hx
    · exact lt_trans (hmem a (List.mem_of_getLast? ha)) (h.behind x hx)
  · have hle := h.length_le
    have hrest := (after_getLast hperm hsort ha).length_eq
    have hfilter := List.length_filter_le (fun x => decide (key a < key x)) (l.drop n)
    rw [← hperm.length_eq, ← List.take_append_drop n l, List.length_append, List.length_append,
      List.take_append_drop]
    omega

/-- It is all there is exactly if the page has a clean end and the rest is all there is. -/
theorem append_perm_iff {rows l received : List α} {last : κ} {a : α}
    (hperm : l.Perm (after key rows last)) (hsort : l.Pairwise fun a b => key a ≤ key b)
    (hn : 0 < n) (ha : (l.take n).getLast? = some a) (h : Received key rows (key a) received) :
    (l.take n ++ received).Perm (after key rows last) ↔
      (n < l.length → (l.map key)[n - 1]? ≠ (l.map key)[n]?) ∧
        received.Perm (after key rows (key a)) := by
  have hcut : (l.take n ++ received).Perm (after key rows last) ↔ received.Perm (l.drop n) := by
    have hl : (l.take n ++ l.drop n).Perm (after key rows last) := by
      rw [List.take_append_drop]
      exact hperm
    exact ⟨fun hp => (List.perm_append_left_iff _).mp (hp.trans hl.symm),
      fun hp => ((List.perm_append_left_iff _).mpr hp).trans hl⟩
  rw [hcut]
  constructor
  · intro hr
    have hclean : n < l.length → (l.map key)[n - 1]? ≠ (l.map key)[n]? := by
      -- rows with the key of the last one would be left, and nothing asks for them
      intro hlt heq
      have hshort := after_length_lt_drop hperm hsort hn ha hlt heq
      have hle := h.length_le
      rw [hr.length_eq] at hle
      omega
    exact ⟨hclean, hr.trans (after_perm_drop hperm hsort hn ha hclean).symm⟩
  · rintro ⟨hclean, hr⟩
    exact hr.trans (after_perm_drop hperm hsort hn ha hclean)

/-- **Paging is complete exactly if its pages are clean.** With enough requests it comes to an
    empty page; the rows received are in order, and they are all the rows behind `last`, each
    once, if and only if every page with rows is served and no page ends between two equal
    keys. -/
theorem pageThrough_spec (served : Nat → Bool) {order : Nat → List α → List α} {rows : List α} (hn : 0 < n)
    (hord : ∀ k, OrdersBy key (order k)) : ∀ {fuel k : Nat} {last : κ},
    (after key rows last).length < fuel →
      ∃ received, pageThrough key n order served rows fuel k last = some received ∧
        Received key rows last received ∧
        (received.Perm (after key rows last) ↔
          CleanPages n served k (keysAfter key rows last)) := by
  intro fuel
  induction fuel with
  | zero => exact fun h => absurd h (Nat.not_lt_zero _)
  | succ fuel ih =>
    intro k last hfuel
    obtain ⟨hperm, hsort⟩ := hord k (after key rows last)
    have hkeys := keysAfter_eq hperm hsort
    by_cases hl : order k (after key rows last) = []
    · -- nothing is left, and the answer says so
      rw [hl] at hperm hkeys
      have hempty : page key n order served rows k last = [] := by
        rw [page, hl, List.take_nil, ite_self]
      refine ⟨[], by rw [pageThrough, hempty]; rfl, received_nil rows last, ?_⟩
      refine ⟨fun _ j hj => ?_, fun _ => hperm⟩
      rw [hkeys] at hj
      exact absurd hj (Nat.not_lt_zero _)
    · have hkne : keysAfter key rows last ≠ [] := by
        rw [hkeys]
        exact fun h => hl (List.map_eq_nil_iff.mp h)
      rw [cleanPages_iff hn hkne]
      cases hs : served k with
      | false =>
        have hempty : page key n order served rows k last = [] := by rw [page, hs]; rfl
        refine ⟨[], by rw [pageThrough, hempty]; rfl, received_nil rows last, ?_⟩
        refine ⟨fun h => ?_, fun h => absurd h.1 (by simp)⟩
        exact absurd (List.length_eq_zero_iff.mp (hperm.length_eq.trans h.length_eq.symm)) hl
      | true =>
        have hpage : page key n order served rows k last
            = (order k (after key rows last)).take n := by rw [page, hs]; rfl
        obtain ⟨a, ha⟩ : ∃ a, ((order k (after key rows last)).take n).getLast? = some a := by
          refine Option.ne_none_iff_exists'.mp fun h => ?_
          rcases List.take_eq_nil_iff.mp (List.getLast?_eq_none_iff.mp h) with h | h
          · omega
          · exact hl h
        have hless : (after key rows (key a)).length < (after key rows last).length := by
          have hfilter := List.length_filter_le (fun x => decide (key a < key x))
            ((order k (after key rows last)).drop n)
          have hpos := List.length_pos_of_ne_nil hl
          rw [List.length_drop] at hfilter
          rw [(after_getLast hperm hsort ha).length_eq, ← hperm.length_eq]
          omega
        obtain ⟨received, hrun, hrec, hiff⟩ := @ih (k + 1) (key a) (by omega)
        refine ⟨(order k (after key rows last)).take n ++ received, ?_,
          hrec.append hperm hsort ha, ?_⟩
        · rw [pageThrough, hpage, ha]
          dsimp only
          rw [hrun]
          rfl
        · rw [append_perm_iff hperm hsort hn ha hrec, hkeys, List.length_map, hiff]
          refine (and_congr_right fun hclean => ?_).trans ⟨fun h => ⟨rfl, h⟩, fun h => h.2⟩
          have hdrop := after_perm_drop hperm hsort hn ha hclean
          rw [keysAfter_eq hdrop.symm (hsort.sublist (List.drop_sublist n _)), List.map_drop]

end

end Lib
