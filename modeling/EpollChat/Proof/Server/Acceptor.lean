import EpollChat.Server.Acceptor
import Mathlib.Data.Int.CardIntervalMod

/-!
# Who gets accepted

Two results about the listening socket. `clients_served_iff` says when its edges are
enough: a client is left waiting, with the accept thread asleep and no event to wake it,
exactly if `accept4` has failed with more clients behind it and no new one came meanwhile
(`left_waiting` is such a run). So one `EMFILE` or `ECONNABORTED` keeps those who wait
waiting until somebody else connects.

`clients_placed` is about those who get in: each client is placed once, in the order of
arrival, and round robin keeps the sub-reactors' loads within one of each other.
-/

namespace EpollChat
namespace Acceptor

open Lib Machine

/-! ## 1. Nobody is left waiting -/

/-- Nobody waits while the accept thread sleeps and nothing is going to wake it. -/
def Served (s : State) : Prop := s.pc = .idle → s.event = false → s.backlog = []

/-- `accept4` fails only where another event is due or no other client waits. -/
def Drained (s : State) : Label → Prop
  | .accept4 .failed => s.event = true ∨ s.backlog = []
  | .accept4 .aborted => s.event = true ∨ s.backlog.length ≤ 1
  | _ => True

instance (s : State) : DecidablePred (Drained s)
  | .accept4 .failed => inferInstanceAs (Decidable (_ ∨ _))
  | .accept4 .aborted => inferInstanceAs (Decidable (_ ∨ _))
  | .accept4 .client | .accept4 .wouldBlock | .connect | .epollWait | .place => isTrue trivial

/-- What a step leaves behind is served, if it drained. -/
theorem served_step {size : Nat} {s s' : State} {l : Label} {es : List Event}
    (hs : step size s l = some (s', es)) : Served s' ↔ Drained s l := by
  cases l with
  | connect =>
    simp only [step, Option.some.injEq, Prod.mk.injEq] at hs
    obtain ⟨rfl, rfl⟩ := hs
    simp [Served, Drained]
  | epollWait =>
    simp only [step] at hs
    split at hs
    · split at hs
      · simp only [Option.some.injEq, Prod.mk.injEq] at hs
        obtain ⟨rfl, rfl⟩ := hs
        simp [Served, Drained]
      · exact absurd hs (by simp)
    · exact absurd hs (by simp)
  | accept4 r =>
    simp only [step] at hs
    split at hs
    · next hpc =>
      cases r with
      | client =>
        simp only [accept4] at hs
        split at hs
        · simp only [Option.some.injEq, Prod.mk.injEq] at hs
          obtain ⟨rfl, rfl⟩ := hs
          simp [Served, Drained]
        · exact absurd hs (by simp)
      | wouldBlock =>
        simp only [accept4] at hs
        split at hs
        · next hb =>
          simp only [Option.some.injEq, Prod.mk.injEq] at hs
          obtain ⟨rfl, rfl⟩ := hs
          simp [Served, Drained, hb]
        · exact absurd hs (by simp)
      | failed =>
        simp only [accept4, Option.some.injEq, Prod.mk.injEq] at hs
        obtain ⟨rfl, rfl⟩ := hs
        cases hev : s.event with
        | true => simp [Served, Drained, hev]
        | false => simp [Served, Drained, hev]
      | aborted =>
        simp only [accept4] at hs
        split at hs
        · next c rest hb =>
          simp only [Option.some.injEq, Prod.mk.injEq] at hs
          obtain ⟨rfl, rfl⟩ := hs
          cases hev : s.event with
          | true => simp [Served, Drained, hev]
          | false => simp [Served, Drained, hev, hb]
        · exact absurd hs (by simp)
    · exact absurd hs (by simp)
  | place =>
    simp only [step] at hs
    split at hs
    · split at hs
      · simp only [Option.some.injEq, Prod.mk.injEq] at hs
        obtain ⟨rfl, rfl⟩ := hs
        simp [Served, Drained]
      · simp only [Option.some.injEq, Prod.mk.injEq] at hs
        obtain ⟨rfl, rfl⟩ := hs
        simp [Served, Drained]
    · exact absurd hs (by simp)

/-- **Nobody is left waiting in a run exactly if** `accept4` never fails in front of a waiting
    client that has no event to come. -/
theorem clients_served_iff {size : Nat} {ls : List Label} {s : State} {τ : List Event}
    (h : run (step size) listening ls = some (s, τ)) :
    Always (step size) Served listening ls ↔ Meets (step size) Drained listening ls := by
  refine always_iff_meets_of_run Served id ?_ ?_ (fun _ _ => rfl) h
  · exact fun _ hp hs => (served_step hs).mpr hp
  · exact fun _ hs hg => (served_step hs).mp hg

/-- Two clients connect, and the first `accept4` finds no descriptor left. -/
def noDescriptorLeft : List Label := [.connect, .connect, .epollWait, .accept4 .failed]

theorem clients_served_iff_left_waiting :
    ¬ Always (step 4) Served listening noDescriptorLeft := by
  rw [clients_served_iff (s := { backlog := [0, 1], arrivals := 2 }) (τ := []) (by decide)]
  decide

/-! ## 2. Everybody is placed once -/

theorem placed_append (τ es : List Event) : placed (τ ++ es) = placed τ ++ placed es := by
  simp [placed]

theorem lost_append (τ es : List Event) : lost (τ ++ es) = lost τ ++ lost es := by
  simp [lost]

/-- Who has been placed, is being placed and waits, in this order; and nobody is missing. -/
structure Placed (size : Nat) (s : State) (τ : List Event) : Prop where
  order : ((placed τ).map Prod.fst ++ (inHand s ++ s.backlog)).Sublist (List.range s.arrivals)
  all : ((placed τ).map Prod.fst ++ (lost τ ++ (inHand s ++ s.backlog))).Perm (List.range s.arrivals)
  next : s.m_nextSubReactor = (placed τ).length % 2 ^ 64
  turns : (placed τ).map Prod.snd
    = (List.range (placed τ).length).map fun k => k % 2 ^ 64 % size
  count : s.g_acceptCount = (placed τ).length

/-- The lists are all that matters where nothing is placed or lost. -/
theorem Placed.congr {size : Nat} {s s' : State} {τ : List Event} (h : Placed size s τ)
    (hw : inHand s' ++ s'.backlog = inHand s ++ s.backlog) (ha : s'.arrivals = s.arrivals)
    (hn : s'.m_nextSubReactor = s.m_nextSubReactor) (hc : s'.g_acceptCount = s.g_acceptCount) :
    Placed size s' (τ ++ []) := by
  rw [List.append_nil]
  refine ⟨?_, ?_, hn.trans h.next, h.turns, hc.trans h.count⟩
  · rw [hw, ha]
    exact h.order
  · rw [hw, ha]
    exact h.all

theorem placed_step {size : Nat} (hsize : 0 < size) {s s' : State} {τ es : List Event} {l : Label}
    (h : Placed size s τ) (hs : step size s l = some (s', es)) : Placed size s' (τ ++ es) := by
  cases l with
  | connect =>
    simp only [step, Option.some.injEq, Prod.mk.injEq] at hs
    obtain ⟨rfl, rfl⟩ := hs
    rw [List.append_nil]
    refine ⟨?_, ?_, h.next, h.turns, h.count⟩
    · have h₁ := h.order.append (List.Sublist.refl [s.arrivals])
      rw [List.append_assoc, List.append_assoc] at h₁
      rw [List.range_succ]
      exact h₁
    · have h₁ := h.all.append_right [s.arrivals]
      rw [List.append_assoc, List.append_assoc, List.append_assoc] at h₁
      rw [List.range_succ]
      exact h₁
  | epollWait =>
    simp only [step] at hs
    split at hs
    · next hpc =>
      split at hs
      · simp only [Option.some.injEq, Prod.mk.injEq] at hs
        obtain ⟨rfl, rfl⟩ := hs
        refine h.congr ?_ rfl rfl rfl
        dsimp only [inHand]
        rw [hpc]
        split
        · next hp => split at hp <;> exact absurd hp (by simp)
        · rfl
      · exact absurd hs (by simp)
    · exact absurd hs (by simp)
  | accept4 r =>
    simp only [step] at hs
    split at hs
    · next hpc =>
      have hhand : inHand s = [] := by
        unfold inHand
        rw [hpc]
      cases r with
      | client =>
        simp only [accept4] at hs
        split at hs
        · next c rest hb =>
          simp only [Option.some.injEq, Prod.mk.injEq] at hs
          obtain ⟨rfl, rfl⟩ := hs
          refine h.congr ?_ rfl rfl rfl
          rw [hhand, hb]
          rfl
        · exact absurd hs (by simp)
      | wouldBlock =>
        simp only [accept4] at hs
        split at hs
        · simp only [Option.some.injEq, Prod.mk.injEq] at hs
          obtain ⟨rfl, rfl⟩ := hs
          refine h.congr ?_ rfl rfl rfl
          rw [hhand]
          rfl
        · exact absurd hs (by simp)
      | failed =>
        simp only [accept4, Option.some.injEq, Prod.mk.injEq] at hs
        obtain ⟨rfl, rfl⟩ := hs
        refine h.congr ?_ rfl rfl rfl
        rw [hhand]
        rfl
      | aborted =>
        simp only [accept4] at hs
        split at hs
        · next c rest hb =>
          simp only [Option.some.injEq, Prod.mk.injEq] at hs
          obtain ⟨rfl, rfl⟩ := hs
          have ho := h.order
          have ha := h.all
          rw [hhand, hb, List.nil_append] at ho ha
          refine ⟨?_, ?_, ?_, ?_, ?_⟩
          · rw [placed_append]
            refine List.Sublist.trans ?_ ho
            simp [placed, inHand]
          · rw [placed_append, lost_append]
            simpa [placed, lost, inHand] using ha
          · rw [placed_append]
            simpa [placed] using h.next
          · rw [placed_append]
            simpa [placed] using h.turns
          · rw [placed_append]
            simpa [placed] using h.count
        · exact absurd hs (by simp)
    · exact absurd hs (by simp)
  | place =>
    simp only [step] at hs
    split at hs
    · next c hpc =>
      rw [if_neg (by omega)] at hs
      simp only [Option.some.injEq, Prod.mk.injEq] at hs
      obtain ⟨rfl, rfl⟩ := hs
      have ho := h.order
      have ha := h.all
      have hhand : inHand s = [c] := by
        unfold inHand
        rw [hpc]
      rw [hhand] at ho ha
      have hp : placed (τ ++ [.placed c (s.m_nextSubReactor % size)])
          = placed τ ++ [(c, s.m_nextSubReactor % size)] := placed_append _ _
      have hlen : (placed (τ ++ [.placed c (s.m_nextSubReactor % size)])).length
          = (placed τ).length + 1 := by
        rw [hp, List.length_append, List.length_singleton]
      refine ⟨?_, ?_, ?_, ?_, ?_⟩
      · rw [hp, List.map_append, List.append_assoc]
        exact ho
      · rw [hp, lost_append, List.map_append]
        refine List.Perm.trans ?_ ha
        rw [List.append_assoc]
        refine List.Perm.append_left _ ?_
        simp only [lost, inHand, List.filterMap_cons_none, List.filterMap_nil, List.append_nil,
          List.map_cons, List.map_nil, List.nil_append]
        rw [← List.append_assoc, ← List.append_assoc]
        exact List.Perm.append_right _ List.perm_append_comm
      · rw [hlen]
        have h₁ := h.next
        dsimp only
        omega
      · rw [hlen, List.range_succ, List.map_append, hp, List.map_append, h.turns, h.next]
        rfl
      · rw [hlen]
        exact congrArg (· + 1) h.count
    · exact absurd hs (by simp)

/-! ## 3. Taking turns -/

/-- How often a turn has come after `m` of them. -/
theorem count_turns {size : Nat} (hsize : 0 < size) {i : Nat} (hi : i < size) (m : Nat) :
    ((List.range m).map (· % size)).count i = m / size + if i < m % size then 1 else 0 := by
  have hcount : ((List.range m).map (· % size)).count i = m.count (· ≡ i [MOD size]) := by
    induction m with
    | zero => rfl
    | succ m ih =>
      rw [List.range_succ, List.map_append, List.count_append, ih, Nat.count_succ]
      congr 1
      simp only [List.map_cons, List.map_nil, List.count_singleton, Nat.ModEq, Nat.mod_eq_of_lt hi,
        beq_iff_eq]
  rw [hcount, Nat.count_modEq_card m hsize, Nat.mod_eq_of_lt hi]

/-- **Every client has one place**: with a sub-reactor, lost, in hand or waiting. Those with a
    sub-reactor got it in the order of arrival, and no sub-reactor has two more than another. -/
theorem clients_placed {size : Nat} (hsize : 0 < size) {ls : List Label} {s : State} {τ : List Event}
    (h : run (step size) listening ls = some (s, τ)) (hfew : (placed τ).length ≤ 2 ^ 64) :
    ((placed τ).map Prod.fst ++ (lost τ ++ (inHand s ++ s.backlog))).Perm (List.range s.arrivals) ∧
      ((placed τ).map Prod.fst).Pairwise (· < ·) ∧
      ∀ i j, i < size → j < size → load τ i ≤ load τ j + 1 := by
  have hp : Placed size s τ := by
    refine run_inv (Placed size) (placed_step hsize) (τ := []) ?_ h
    exact ⟨List.Sublist.refl _, List.Perm.refl _, rfl, rfl, rfl⟩
  refine ⟨hp.all, ?_, fun i j hi hj => ?_⟩
  · exact List.Pairwise.sublist ((List.sublist_append_left _ _).trans hp.order) List.pairwise_lt_range
  · have hturns : (placed τ).map Prod.snd = (List.range (placed τ).length).map (· % size) := by
      rw [hp.turns]
      refine List.map_congr_left fun k hk => ?_
      have hlt := List.mem_range.mp hk
      rw [Nat.mod_eq_of_lt (show k < 2 ^ 64 by omega)]
    unfold load
    rw [hturns, count_turns hsize hi, count_turns hsize hj]
    split <;> split <;> omega

/-- Three clients for two sub-reactors, while the second comes late. -/
def threeClients : List Label :=
  [.connect, .epollWait, .accept4 .client, .connect, .place, .accept4 .client, .connect, .place,
    .accept4 .client, .place, .accept4 .wouldBlock]

theorem clients_placed_three : ∃ s τ, run (step 2) listening threeClients = some (s, τ) ∧
    ((placed τ).map Prod.fst ++ (lost τ ++ (inHand s ++ s.backlog))).Perm (List.range s.arrivals) ∧
      load τ 0 ≤ load τ 1 + 1 := by
  have hrun : run (step 2) listening threeClients
      = some ({ arrivals := 3, event := true, m_nextSubReactor := 3, g_acceptCount := 3 },
          [.placed 0 0, .placed 1 1, .placed 2 0]) := by decide
  obtain ⟨hall, -, hload⟩ := clients_placed (show 0 < 2 by decide) hrun (by decide)
  exact ⟨_, _, hrun, hall, hload 0 1 (by decide) (by decide)⟩

end Acceptor
end EpollChat
