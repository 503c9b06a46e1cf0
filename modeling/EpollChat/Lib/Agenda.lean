import EpollChat.Lib.Machine
import EpollChat.Lib.Threads
import Mathlib.Algebra.GroupWithZero.Nat
import Mathlib.Data.Multiset.DershowitzManna

/-!
# Threads with agendas

Each thread keeps a list of things it has still to do, and a step takes the first of them. What
doing it means is a function `exec` of the shared world: it may change the world, put further
things in front of the thread's agenda, and emit events. Queues between threads are part of the
world.

Three rules come with that shape. What holds of everything on the agendas is kept if what is put
there has it (`Everywhere.setAgenda`). Work is conserved: if every act carries a debt, and doing
it pays off or passes on exactly that, then what has been incurred in a run is what has been paid
and what is still owed (`owed_move`, `owed_begin`, `run_balance`). And work comes to an end: if
every act leads to acts of lower rank only, however many, then there is no infinite run of such
steps (`work_move`, `work_begin`, `no_infinite_run`).
-/

namespace Lib
namespace Agenda

open Machine

structure State (World Thread Act : Type*) where
  world : World
  agenda : Thread → List Act

variable {World Thread Act Answer Event : Type*}

/-! ## 1. Steps -/

section

variable [DecidableEq Thread]

def setAgenda (s : State World Thread Act) (t : Thread) (acts : List Act) : State World Thread Act :=
  { s with agenda := Function.update s.agenda t acts }

/-- The thread does what is first on its agenda. -/
def move (exec : World → Act → Answer → Option (World × List Act × List Event))
    (s : State World Thread Act) (t : Thread) (answer : Answer) :
    Option (State World Thread Act × List Event) :=
  match s.agenda t with
  | [] => none
  | act :: acts =>
      match exec s.world act answer with
      | none => none
      | some (w, new, es) => some (setAgenda { s with world := w } t (new ++ acts), es)

/-- An idle thread gets something to do. -/
def begin (s : State World Thread Act) (t : Thread) (w : World) (acts : List Act) :
    Option (State World Thread Act × List Event) :=
  match s.agenda t with
  | [] => some (setAgenda { s with world := w } t acts, [])
  | _ :: _ => none

theorem move_cases {exec : World → Act → Answer → Option (World × List Act × List Event)}
    {s s' : State World Thread Act} {t : Thread} {answer : Answer} {es : List Event}
    (h : move exec s t answer = some (s', es)) :
    ∃ act acts w new, s.agenda t = act :: acts ∧ exec s.world act answer = some (w, new, es) ∧
      s' = setAgenda { s with world := w } t (new ++ acts) := by
  unfold move at h
  split at h
  · exact absurd h (by simp)
  · split at h
    · exact absurd h (by simp)
    · simp only [Option.some.injEq, Prod.mk.injEq] at h
      obtain ⟨rfl, rfl⟩ := h
      exact ⟨_, _, _, _, ‹_›, ‹_›, rfl⟩

theorem begin_cases {s s' : State World Thread Act} {t : Thread} {w : World} {acts : List Act}
    {es : List Event} (h : begin s t w acts = some (s', es)) :
    s.agenda t = [] ∧ s' = setAgenda { s with world := w } t acts ∧ es = [] := by
  unfold begin at h
  split at h
  · simp only [Option.some.injEq, Prod.mk.injEq] at h
    obtain ⟨rfl, rfl⟩ := h
    exact ⟨‹_›, rfl, rfl⟩
  · exact absurd h (by simp)

/-! ## 2. What holds of everything on the agendas -/

def Everywhere (P : Act → Prop) (s : State World Thread Act) : Prop := ∀ t, ∀ act ∈ s.agenda t, P act

omit [DecidableEq Thread] in
theorem Everywhere.mono {P Q : Act → Prop} {s : State World Thread Act} (h : Everywhere P s)
    (hPQ : ∀ act, P act → Q act) : Everywhere Q s := fun t act ha => hPQ act (h t act ha)

theorem Everywhere.setAgenda {P : Act → Prop} {s : State World Thread Act} {t : Thread} {w : World}
    {acts : List Act} (h : Everywhere P s) (hacts : ∀ act ∈ acts, P act) :
    Everywhere P (setAgenda { s with world := w } t acts) := by
  intro u act ha
  change act ∈ Function.update s.agenda t acts u at ha
  by_cases hu : u = t
  · subst hu
    rw [Function.update_self] at ha
    exact hacts act ha
  · rw [Function.update_of_ne hu] at ha
    exact h u act ha

end

/-! ## 3. Debts -/

/-- The sum of `f` over a list. -/
def sumOf {α : Type*} (f : α → Nat) (l : List α) : Nat := (l.map f).sum

section

variable {α : Type*} {f : α → Nat}

@[simp] theorem sumOf_nil : sumOf f [] = 0 := rfl

@[simp] theorem sumOf_cons (a : α) (l : List α) : sumOf f (a :: l) = f a + sumOf f l := by
  rw [sumOf, List.map_cons, List.sum_cons]
  rfl

@[simp] theorem sumOf_append (l l' : List α) : sumOf f (l ++ l') = sumOf f l + sumOf f l' := by
  rw [sumOf, List.map_append, List.sum_append]
  rfl

theorem sumOf_eq_zero {l : List α} (h : ∀ a ∈ l, f a = 0) : sumOf f l = 0 := by
  induction l with
  | nil => rfl
  | cons a l ih =>
    rw [sumOf_cons, h a List.mem_cons_self, ih fun b hb => h b (List.mem_cons_of_mem _ hb)]

end

variable [Fintype Thread]

/-- What is owed: by the world, for the queues in it, and by the threads. -/
def owed (queued : World → Nat) (debt : Act → Nat) (s : State World Thread Act) : Nat :=
  queued s.world + ∑ t, sumOf debt (s.agenda t)

section

variable [DecidableEq Thread] {queued : World → Nat} {debt : Act → Nat}

theorem owed_setAgenda {s : State World Thread Act} {t : Thread} {w : World} {acts : List Act}
    {paid incurred : Nat}
    (h : queued w + sumOf debt acts + paid =
      queued s.world + sumOf debt (s.agenda t) + incurred) :
    owed queued debt (setAgenda { s with world := w } t acts) + paid =
      owed queued debt s + incurred := by
  have hsum := Threads.sum_update (sumOf debt) s.agenda t acts
  show queued w + (∑ u, sumOf debt (Function.update s.agenda t acts u)) + paid =
    queued s.world + (∑ u, sumOf debt (s.agenda u)) + incurred
  omega

/-- **An act settles its debt**: in the world, by what it puts on the agenda, or by paying. -/
theorem owed_move {exec : World → Act → Answer → Option (World × List Act × List Event)}
    {s s' : State World Thread Act} {t : Thread} {answer : Answer} {es : List Event}
    {paid incurred : Nat} (h : move exec s t answer = some (s', es))
    (hexec : ∀ act w new, act ∈ s.agenda t → exec s.world act answer = some (w, new, es) →
      queued w + sumOf debt new + paid = queued s.world + debt act + incurred) :
    owed queued debt s' + paid = owed queued debt s + incurred := by
  obtain ⟨act, acts, w, new, ht, he, rfl⟩ := move_cases h
  refine owed_setAgenda ?_
  have hsettled := hexec act w new (by rw [ht]; exact List.mem_cons_self) he
  rw [ht, sumOf_append, sumOf_cons]
  omega

theorem owed_begin {s s' : State World Thread Act} {t : Thread} {w : World} {acts : List Act}
    {es : List Event} (h : begin s t w acts = some (s', es))
    (hmoved : queued w + sumOf debt acts = queued s.world) :
    owed queued debt s' = owed queued debt s := by
  obtain ⟨ht, rfl, -⟩ := begin_cases h
  have hsum := Threads.sum_update (sumOf debt) s.agenda t acts
  rw [ht, sumOf_nil] at hsum
  show queued w + (∑ u, sumOf debt (Function.update s.agenda t acts u)) =
    queued s.world + ∑ u, sumOf debt (s.agenda u)
  omega

omit [DecidableEq Thread] in
theorem owed_idle {s : State World Thread Act} (hworld : queued s.world = 0)
    (hidle : ∀ t, s.agenda t = []) : owed queued debt s = 0 := by
  have hsum : ∑ t, sumOf debt (s.agenda t) = 0 :=
    Finset.sum_eq_zero fun t _ => by rw [hidle t, sumOf_nil]
  rw [owed, hworld, hsum]

end

/-! ## 4. Books over a run -/

section

variable {σ ℓ ε : Type*}

/-- **The books balance over a run**: if every step from a state that meets the invariant balances,
    then what a run has incurred is what it has paid, and the change of what is owed. -/
theorem run_balance {step : σ → ℓ → Option (σ × List ε)} (Inv : σ → Prop) {due : σ → Nat}
    {incurred paid : ε → Nat}
    (hstep : ∀ {s l s' es}, Inv s → step s l = some (s', es) →
      Inv s' ∧ due s' + sumOf paid es = due s + sumOf incurred es)
    {ls : List ℓ} {s s' : σ} {τ : List ε} (hi : Inv s) (hr : run step s ls = some (s', τ)) :
    due s' + sumOf paid τ = due s + sumOf incurred τ := by
  have h : Inv s' ∧ due s' + sumOf paid ([] ++ τ) = due s + sumOf incurred ([] ++ τ) :=
    run_inv (fun s' τ => Inv s' ∧ due s' + sumOf paid τ = due s + sumOf incurred τ)
      (fun {s₁ τ₁ l s₂ es} hi₁ hs => by
        obtain ⟨hi₂, hbal⟩ := hstep hi₁.1 hs
        refine ⟨hi₂, ?_⟩
        rw [sumOf_append, sumOf_append]
        have := hi₁.2
        omega) ⟨hi, rfl⟩ hr
  exact h.2

end

/-! ## 5. Work comes to an end -/

section

variable [DecidableEq Thread] {queued : World → Multiset Nat} {rank : Act → Nat}

/-- The ranks of the acts of a list. -/
def ranks (rank : Act → Nat) (acts : List Act) : Multiset Nat := (acts.map rank : List Nat)

@[simp] theorem ranks_nil : ranks rank ([] : List Act) = 0 := rfl

@[simp] theorem ranks_cons (act : Act) (acts : List Act) :
    ranks rank (act :: acts) = {rank act} + ranks rank acts := rfl

@[simp] theorem ranks_append (acts acts' : List Act) :
    ranks rank (acts ++ acts') = ranks rank acts + ranks rank acts' := by
  rw [ranks, List.map_append, ← Multiset.coe_add]
  rfl

theorem forall_mem_ranks {acts : List Act} {n : Nat} (h : ∀ act ∈ acts, rank act < n) :
    ∀ r ∈ ranks rank acts, r < n := by
  intro r hr
  obtain ⟨act, ha, rfl⟩ := List.mem_map.mp (Multiset.mem_coe.mp hr)
  exact h act ha

/-- The ranks of everything there is to do, in the world's queues and with the threads. -/
def work (queued : World → Multiset Nat) (rank : Act → Nat) (s : State World Thread Act) :
    Multiset Nat := queued s.world + ∑ t, ranks rank (s.agenda t)

/-- Something is replaced by things of lower rank. -/
theorem work_setAgenda {s : State World Thread Act} {t : Thread} {w : World} {acts : List Act}
    {k a : Multiset Nat} {n : Nat} (hnew : queued w + ranks rank acts = k + a)
    (hold : queued s.world + ranks rank (s.agenda t) = k + {n}) (hlt : ∀ r ∈ a, r < n) :
    (work queued rank (setAgenda { s with world := w } t acts)).IsDershowitzMannaLT
      (work queued rank s) := by
  obtain ⟨rest, hrest⟩ : ∃ rest, (∑ u, ranks rank (s.agenda u)) = ranks rank (s.agenda t) + rest :=
    ⟨_, (Finset.add_sum_erase Finset.univ (fun u => ranks rank (s.agenda u)) (Finset.mem_univ t)).symm⟩
  have hsum := Threads.sum_update (ranks rank) s.agenda t acts
  rw [hrest] at hsum
  have hupdated : (∑ u, ranks rank (Function.update s.agenda t acts u)) = ranks rank acts + rest := by
    refine add_right_cancel (b := ranks rank (s.agenda t)) ?_
    rw [hsum]
    ac_rfl
  refine ⟨k + rest, a, {n}, Multiset.singleton_ne_zero n, ?_, ?_, fun r hr =>
    ⟨n, Multiset.mem_singleton_self n, hlt r hr⟩⟩
  · show queued w + (∑ u, ranks rank (Function.update s.agenda t acts u)) = _
    rw [hupdated, ← add_assoc, hnew]
    ac_rfl
  · rw [work, hrest, ← add_assoc, hold]
    ac_rfl

/-- **An act is replaced by acts of lower rank.** -/
theorem work_move {exec : World → Act → Answer → Option (World × List Act × List Event)}
    {s s' : State World Thread Act} {t : Thread} {answer : Answer} {es : List Event}
    (h : move exec s t answer = some (s', es))
    (hexec : ∀ act w new, exec s.world act answer = some (w, new, es) →
      (∀ a ∈ new, rank a < rank act) ∧
        ∃ added, queued w = queued s.world + added ∧ ∀ r ∈ added, r < rank act) :
    (work queued rank s').IsDershowitzMannaLT (work queued rank s) := by
  obtain ⟨act, acts, w, new, ht, he, rfl⟩ := move_cases h
  obtain ⟨hnew, added, hq, hadded⟩ := hexec act w new he
  refine work_setAgenda (k := queued s.world + ranks rank acts)
    (a := added + ranks rank new) (n := rank act) ?_ ?_ fun r hr => ?_
  · rw [hq, ranks_append]
    ac_rfl
  · rw [ht, ranks_cons]
    ac_rfl
  · rcases Multiset.mem_add.mp hr with hr | hr
    · exact hadded r hr
    · exact forall_mem_ranks hnew r hr

/-- The same for something that was taken from a queue. -/
theorem work_begin {s s' : State World Thread Act} {t : Thread} {w : World} {acts : List Act}
    {es : List Event} {n : Nat} (h : begin s t w acts = some (s', es))
    (hq : queued s.world = queued w + {n}) (hlt : ∀ act ∈ acts, rank act < n) :
    (work queued rank s').IsDershowitzMannaLT (work queued rank s) := by
  obtain ⟨ht, rfl, -⟩ := begin_cases h
  refine work_setAgenda rfl ?_ (forall_mem_ranks hlt)
  rw [ht, hq, ranks_nil, add_zero]

end

/-- Steps by which a multiset of ranks shrinks do not go on for ever. -/
theorem no_infinite_run {σ : Type*} (size : σ → Multiset Nat) {r : σ → σ → Prop}
    (hlt : ∀ {s s'}, r s s' → (size s').IsDershowitzMannaLT (size s)) :
    ¬ ∃ f : Nat → σ, ∀ n, r (f n) (f (n + 1)) := by
  rintro ⟨f, hf⟩
  have hwf : WellFounded (Multiset.IsDershowitzMannaLT : Multiset Nat → Multiset Nat → Prop) :=
    Multiset.wellFounded_isDershowitzMannaLT
  have hempty := wellFounded_iff_isEmpty_descending_chain.mp hwf
  exact hempty.false ⟨fun n => size (f n), fun n => hlt (hf n)⟩

end Agenda
end Lib
