import Mathlib.Data.List.Basic
import Mathlib.Data.List.Infix

/-!
# Labelled machines, their runs and their traces

A concurrent program is embedded here as a *function* `step : σ → ℓ → Option (σ × List ε)`.
The label carries everything the program does not decide for itself: which thread
moves, what the clock reads, how much the kernel took. `none` means that the label is
not enabled in that state. The events a step emits are what the outside sees of it, and
a run concatenates them.

Two things follow from taking a function and not a relation. A finite run is a
computation, so a counterexample is a list of labels that `decide` replays. And the
order of steps is the list of labels itself, so "for every interleaving" is a
quantifier over lists, with nothing hidden in a scheduler.

`run_inv` is the one induction every safety theorem of the development goes through;
`run_inv_of_meets` is the same rule for the runs whose steps all meet a side condition,
and `always_iff_meets` the one for a side condition that is necessary as well. `follows_iff_meets`
is the rule for a machine and the one it is meant to behave like.
-/

namespace Lib
namespace Machine

universe u v w

variable {σ : Type u} {ℓ : Type v} {ε : Type w}

/-! ## 1. Runs -/

/-- Replay a list of labels, collecting the events in order. -/
def run (step : σ → ℓ → Option (σ × List ε)) : σ → List ℓ → Option (σ × List ε)
  | s, [] => some (s, [])
  | s, l :: ls =>
      match step s l with
      | none => none
      | some (s', es) =>
          match run step s' ls with
          | none => none
          | some (s'', es') => some (s'', es ++ es')

theorem run_cons {step : σ → ℓ → Option (σ × List ε)} {s s'' : σ} {l : ℓ} {ls : List ℓ}
    {τ : List ε} (h : run step s (l :: ls) = some (s'', τ)) :
    ∃ s' es τ', step s l = some (s', es) ∧ run step s' ls = some (s'', τ') ∧ τ = es ++ τ' := by
  rw [run] at h
  cases hs : step s l with
  | none => rw [hs] at h; simp at h
  | some p =>
    obtain ⟨s', es⟩ := p
    rw [hs] at h
    dsimp only at h
    cases hr : run step s' ls with
    | none => rw [hr] at h; simp at h
    | some q =>
      obtain ⟨t, τ'⟩ := q
      rw [hr] at h
      simp only [Option.some.injEq, Prod.mk.injEq] at h
      obtain ⟨rfl, rfl⟩ := h
      exact ⟨s', es, τ', rfl, hr, rfl⟩

/-- A run goes through the state its first labels lead to. -/
theorem run_append {step : σ → ℓ → Option (σ × List ε)} {ls₂ : List ℓ} {s'' : σ} :
    ∀ {ls₁ : List ℓ} {s : σ} {τ : List ε}, run step s (ls₁ ++ ls₂) = some (s'', τ) →
      ∃ s' τ₁ τ₂, run step s ls₁ = some (s', τ₁) ∧ run step s' ls₂ = some (s'', τ₂) ∧ τ = τ₁ ++ τ₂ := by
  intro ls₁
  induction ls₁ with
  | nil => exact fun h => ⟨_, [], _, rfl, h, rfl⟩
  | cons l ls₁ ih =>
    intro s τ h
    obtain ⟨s₁, es, τ', hs, hr, rfl⟩ := run_cons h
    obtain ⟨s', τ₁, τ₂, hr₁, hr₂, rfl⟩ := ih hr
    refine ⟨s', es ++ τ₁, τ₂, ?_, hr₂, by rw [List.append_assoc]⟩
    rw [run, hs]
    dsimp only
    rw [hr₁]

/-- Two runs that meet make one. -/
theorem run_trans {step : σ → ℓ → Option (σ × List ε)} {ls₂ : List ℓ} {s' s'' : σ} {τ₂ : List ε}
    (h₂ : run step s' ls₂ = some (s'', τ₂)) :
    ∀ {ls₁ : List ℓ} {s : σ} {τ₁ : List ε}, run step s ls₁ = some (s', τ₁) →
      run step s (ls₁ ++ ls₂) = some (s'', τ₁ ++ τ₂) := by
  intro ls₁
  induction ls₁ with
  | nil =>
    intro s τ₁ h₁
    simp only [run, Option.some.injEq, Prod.mk.injEq] at h₁
    obtain ⟨rfl, rfl⟩ := h₁
    exact h₂
  | cons l ls₁ ih =>
    intro s τ₁ h₁
    obtain ⟨s₁, es, τ', hs, hr, rfl⟩ := run_cons h₁
    rw [List.cons_append, run, hs]
    dsimp only
    rw [ih hr, List.append_assoc]

/-! ## 2. Invariants over whole runs -/

/-- **The invariant rule.** A predicate of the state and of everything emitted so far
    that one step preserves holds at the end of every run it held at the start of. -/
theorem run_inv {step : σ → ℓ → Option (σ × List ε)} (Inv : σ → List ε → Prop)
    (hstep : ∀ {s τ l s' es}, Inv s τ → step s l = some (s', es) → Inv s' (τ ++ es)) :
    ∀ {ls : List ℓ} {s s' : σ} {τ τ' : List ε}, Inv s τ → run step s ls = some (s', τ') →
      Inv s' (τ ++ τ') := by
  intro ls
  induction ls with
  | nil =>
    intro s s' τ τ' hi hr
    simp only [run, Option.some.injEq, Prod.mk.injEq] at hr
    obtain ⟨rfl, rfl⟩ := hr
    simpa using hi
  | cons l ls ih =>
    intro s s' τ τ' hi hr
    obtain ⟨s₁, es, τ₁, hs, hr', rfl⟩ := run_cons hr
    rw [← List.append_assoc]
    exact ih (hstep hi hs) hr'

/-- The rule for a predicate of the state alone. -/
theorem run_inv_state {step : σ → ℓ → Option (σ × List ε)} (Inv : σ → Prop)
    (hstep : ∀ {s l s' es}, Inv s → step s l = some (s', es) → Inv s')
    {ls : List ℓ} {s s' : σ} {τ : List ε} (hi : Inv s) (hr : run step s ls = some (s', τ)) :
    Inv s' := by
  exact run_inv (fun s _ => Inv s) (fun hi hs => hstep hi hs) (τ := []) hi hr

/-! ## 3. Runs whose steps meet a side condition -/

/-- Every step of the run is taken from a state that meets `P` for its label. -/
def Meets (step : σ → ℓ → Option (σ × List ε)) (P : σ → ℓ → Prop) : σ → List ℓ → Prop
  | _, [] => True
  | s, l :: ls => P s l ∧ ∀ s' es, step s l = some (s', es) → Meets step P s' ls

/-- The step is a function, so on a given list of labels the condition can be checked. -/
instance decidableMeets {step : σ → ℓ → Option (σ × List ε)} {P : σ → ℓ → Prop}
    [∀ s l, Decidable (P s l)] : ∀ (s : σ) (ls : List ℓ), Decidable (Meets step P s ls)
  | _, [] => isTrue trivial
  | s, l :: ls =>
      match h : step s l with
      | none => decidable_of_iff (P s l) (by simp [Meets, h])
      | some (s', _) =>
          have : Decidable (Meets step P s' ls) := decidableMeets s' ls
          decidable_of_iff (P s l ∧ Meets step P s' ls) (by simp [Meets, h])

/-- The rest of a run has to meet the condition from the state the first step leads to. -/
theorem meets_cons {step : σ → ℓ → Option (σ × List ε)} {P : σ → ℓ → Prop} {s s' : σ} {l : ℓ}
    {ls : List ℓ} {es : List ε} (hs : step s l = some (s', es)) :
    Meets step P s (l :: ls) ↔ P s l ∧ Meets step P s' ls := by
  refine and_congr_right fun _ => ⟨fun h => h s' es hs, fun h s₂ es₂ hs₂ => ?_⟩
  obtain ⟨rfl, -⟩ := Prod.mk.inj (Option.some.inj (hs.symm.trans hs₂))
  exact h

/-- A condition on the labels alone is met by a run of labels that meet it. -/
theorem meets_of_labels {step : σ → ℓ → Option (σ × List ε)} {P : ℓ → Prop} :
    ∀ {ls : List ℓ} {s : σ}, (∀ l ∈ ls, P l) → Meets step (fun _ l => P l) s ls := by
  intro ls
  induction ls with
  | nil => exact fun _ => trivial
  | cons l ls ih =>
    intro s h
    exact ⟨h l List.mem_cons_self, fun s' es _ => ih fun l' hl' => h l' (List.mem_cons_of_mem _ hl')⟩

/-- Two conditions are met when each is. -/
theorem Meets.and {step : σ → ℓ → Option (σ × List ε)} {P Q : σ → ℓ → Prop} :
    ∀ {ls : List ℓ} {s : σ}, Meets step P s ls → Meets step Q s ls →
      Meets step (fun s l => P s l ∧ Q s l) s ls := by
  intro ls
  induction ls with
  | nil => exact fun _ _ => trivial
  | cons l ls ih =>
    intro s hp hq
    exact ⟨⟨hp.1, hq.1⟩, fun s' es hs => ih (hp.2 s' es hs) (hq.2 s' es hs)⟩

/-- **The invariant rule under a side condition**: the step lemma may use `P`. -/
theorem run_inv_of_meets {step : σ → ℓ → Option (σ × List ε)} {P : σ → ℓ → Prop}
    (Inv : σ → List ε → Prop)
    (hstep : ∀ {s τ l s' es}, Inv s τ → P s l → step s l = some (s', es) → Inv s' (τ ++ es)) :
    ∀ {ls : List ℓ} {s s' : σ} {τ τ' : List ε}, Inv s τ → Meets step P s ls →
      run step s ls = some (s', τ') → Inv s' (τ ++ τ') := by
  intro ls
  induction ls with
  | nil =>
    intro s s' τ τ' hi _ hr
    simp only [run, Option.some.injEq, Prod.mk.injEq] at hr
    obtain ⟨rfl, rfl⟩ := hr
    simpa using hi
  | cons l ls ih =>
    intro s s' τ τ' hi hm hr
    obtain ⟨s₁, es, τ₁, hs, hr', rfl⟩ := run_cons hr
    rw [← List.append_assoc]
    exact ih (hstep hi hm.1 hs) (hm.2 s₁ es hs) hr'

/-- The rule for a property of single events: a step from a state that meets the invariant
    emits only good ones. -/
theorem run_events_of_meets {step : σ → ℓ → Option (σ × List ε)} {P : σ → ℓ → Prop}
    (Inv : σ → Prop) (Good : ε → Prop)
    (hstep : ∀ {s l s' es}, Inv s → P s l → step s l = some (s', es) →
      Inv s' ∧ ∀ e ∈ es, Good e)
    {ls : List ℓ} {s s' : σ} {τ : List ε} (hi : Inv s) (hm : Meets step P s ls)
    (hr : run step s ls = some (s', τ)) : ∀ e ∈ τ, Good e := by
  refine (run_inv_of_meets (fun s τ => Inv s ∧ ∀ e ∈ τ, Good e) ?_ (τ := [])
    ⟨hi, fun e he => absurd he List.not_mem_nil⟩ hm hr).2
  intro s τ l s' es hi hp hs
  obtain ⟨hi', hes⟩ := hstep hi.1 hp hs
  refine ⟨hi', fun e he => ?_⟩
  rcases List.mem_append.mp he with he | he
  · exact hi.2 e he
  · exact hes e he

/-- Two conditions that say the same of every step taken from a state that meets the
    invariant are met by the same runs. -/
theorem meets_congr {step : σ → ℓ → Option (σ × List ε)} {P Q R : σ → ℓ → Prop} (Inv : σ → Prop)
    (hkeep : ∀ {s l s' es}, Inv s → R s l → step s l = some (s', es) → Inv s')
    (hiff : ∀ {s l s' es}, Inv s → R s l → step s l = some (s', es) → (P s l ↔ Q s l)) :
    ∀ {ls : List ℓ} {s s' : σ} {τ : List ε}, Inv s → Meets step R s ls →
      run step s ls = some (s', τ) → (Meets step P s ls ↔ Meets step Q s ls) := by
  intro ls
  induction ls with
  | nil => exact fun _ _ _ => Iff.rfl
  | cons l ls ih =>
    intro s s' τ hi hm hr
    obtain ⟨s₁, es, τ', hs, hr', -⟩ := run_cons hr
    rw [meets_cons hs, meets_cons hs]
    exact and_congr (hiff hi hm.1 hs) (ih (hkeep hi hm.1 hs) (hm.2 s₁ es hs) hr')

/-! ## 4. Good states along a run -/

/-- Every state the run goes through is good, the first and the last included. -/
def Always (step : σ → ℓ → Option (σ × List ε)) (Good : σ → Prop) : σ → List ℓ → Prop
  | s, [] => Good s
  | s, l :: ls => Good s ∧ ∀ s' es, step s l = some (s', es) → Always step Good s' ls

theorem Always.head {step : σ → ℓ → Option (σ × List ε)} {Good : σ → Prop} {s : σ} {ls : List ℓ}
    (h : Always step Good s ls) : Good s := by
  cases ls with
  | nil => exact h
  | cons l ls => exact h.1

/-- **Exactly the runs that meet `P` stay good**, if an invariant that makes states good is
    kept by the steps that meet `P`, and a step that leads to a good state does meet it. -/
theorem always_iff_meets {step : σ → ℓ → Option (σ × List ε)} {Good : σ → Prop}
    {P : σ → ℓ → Prop} (Inv : σ → Prop) (hgood : ∀ {s}, Inv s → Good s)
    (hkeep : ∀ {s l s' es}, Inv s → P s l → step s l = some (s', es) → Inv s')
    (hneed : ∀ {s l}, Inv s → (∀ s' es, step s l = some (s', es) → Good s') → P s l) :
    ∀ {ls : List ℓ} {s : σ}, Inv s → (Always step Good s ls ↔ Meets step P s ls) := by
  intro ls
  induction ls with
  | nil => exact fun hi => ⟨fun _ => trivial, fun _ => hgood hi⟩
  | cons l ls ih =>
    intro s hi
    constructor
    · intro ha
      have hp : P s l := hneed hi fun s' es hs => (ha.2 s' es hs).head
      exact ⟨hp, fun s' es hs => (ih (hkeep hi hp hs)).mp (ha.2 s' es hs)⟩
    · intro hm
      exact ⟨hgood hi, fun s' es hs => (ih (hkeep hi hm.1 hs)).mpr (hm.2 s' es hs)⟩

/-- The same for a run, in which every step is taken. -/
theorem always_iff_meets_of_run {step : σ → ℓ → Option (σ × List ε)} {Good : σ → Prop}
    {P : σ → ℓ → Prop} (Inv : σ → Prop) (hgood : ∀ {s}, Inv s → Good s)
    (hkeep : ∀ {s l s' es}, Inv s → P s l → step s l = some (s', es) → Inv s')
    (hneed : ∀ {s l s' es}, Inv s → step s l = some (s', es) → Good s' → P s l) :
    ∀ {ls : List ℓ} {s s' : σ} {τ : List ε}, Inv s → run step s ls = some (s', τ) →
      (Always step Good s ls ↔ Meets step P s ls) := by
  intro ls
  induction ls with
  | nil => exact fun hi _ => ⟨fun _ => trivial, fun _ => hgood hi⟩
  | cons l ls ih =>
    intro s s' τ hi hr
    obtain ⟨s₁, es, τ', hs, hr', -⟩ := run_cons hr
    rw [meets_cons hs]
    constructor
    · intro ha
      have hp : P s l := hneed hi hs (ha.2 s₁ es hs).head
      exact ⟨hp, (ih (hkeep hi hp hs) hr').mp (ha.2 s₁ es hs)⟩
    · rintro ⟨hp, hm⟩
      refine ⟨hgood hi, fun s₂ es₂ h => ?_⟩
      obtain ⟨rfl, -⟩ := Prod.mk.inj (Option.some.inj (hs.symm.trans h))
      exact (ih (hkeep hi hp hs) hr').mpr hm

/-! ## 5. Counting along a run -/

/-- The sum of `f` over the steps of the run. -/
def total (step : σ → ℓ → Option (σ × List ε)) (f : σ → ℓ → Nat) : σ → List ℓ → Nat
  | _, [] => 0
  | s, l :: ls =>
      match step s l with
      | none => 0
      | some (s', _) => f s l + total step f s' ls

/-- **The invariant rule for a count**: the invariant is told how much has been counted. -/
theorem run_total {step : σ → ℓ → Option (σ × List ε)} {P : σ → ℓ → Prop} {f : σ → ℓ → Nat}
    (Inv : σ → List ε → Nat → Prop)
    (hstep : ∀ {s τ k l s' es}, Inv s τ k → P s l → step s l = some (s', es) →
      Inv s' (τ ++ es) (k + f s l)) :
    ∀ {ls : List ℓ} {s s' : σ} {τ τ' : List ε} {k : Nat}, Inv s τ k → Meets step P s ls →
      run step s ls = some (s', τ') → Inv s' (τ ++ τ') (k + total step f s ls) := by
  intro ls
  induction ls with
  | nil =>
    intro s s' τ τ' k hi _ hr
    simp only [run, Option.some.injEq, Prod.mk.injEq] at hr
    obtain ⟨rfl, rfl⟩ := hr
    simpa [total] using hi
  | cons l ls ih =>
    intro s s' τ τ' k hi hm hr
    obtain ⟨s₁, es, τ₁, hs, hr', rfl⟩ := run_cons hr
    have h := ih (hstep hi hm.1 hs) (hm.2 s₁ es hs) hr'
    rw [total, hs]
    dsimp only
    rw [← List.append_assoc, ← Nat.add_assoc]
    exact h

/-! ## 6. Order of events -/

/-- Events in a given order, in a trace that has just grown by one: they were all there
    already, or the last of them has just come. -/
theorem sublist_concat {l τ : List ε} {e : ε} (h : l.Sublist (τ ++ [e])) :
    l.Sublist τ ∨ ∃ l', l = l' ++ [e] ∧ l'.Sublist τ := by
  obtain ⟨l₁, l₂, rfl, h₁, h₂⟩ := List.sublist_append_iff.mp h
  rcases List.sublist_singleton.mp h₂ with rfl | rfl
  · rw [List.append_nil]
    exact Or.inl h₁
  · exact Or.inr ⟨l₁, rfl, h₁⟩

/-- Where the last of the events in order has not come now, they were all there already. -/
theorem sublist_of_last_not_mem {l τ es : List ε} {e : ε} (h : (l ++ [e]).Sublist (τ ++ es))
    (he : e ∉ es) : (l ++ [e]).Sublist τ := by
  obtain ⟨l₁, l₂, heq, h₁, h₂⟩ := List.sublist_append_iff.mp h
  rcases List.eq_nil_or_concat' l₂ with rfl | ⟨l₃, e', rfl⟩
  · rw [heq, List.append_nil]
    exact h₁
  · rw [← List.append_assoc] at heq
    obtain rfl : e = e' := List.singleton_inj.mp (List.append_inj_right' heq rfl)
    exact absurd (h₂.subset (List.mem_append_right _ List.mem_cons_self)) he

/-! ## 7. Refinement -/

section

variable {κ : Type*}

/-- A machine seen through `f`, with its labels seen through `g`, runs as the machine itself does. -/
theorem run_map {ℓ' : Type*} {step : σ → ℓ → Option (σ × List ε)}
    {spec : κ → ℓ' → Option (κ × List ε)} {f : σ → κ} {g : ℓ → ℓ'}
    (h : ∀ s l, spec (f s) (g l) = (step s l).map (Prod.map f id)) :
    ∀ {ls : List ℓ} {s : σ}, run spec (f s) (ls.map g) = (run step s ls).map (Prod.map f id) := by
  intro ls
  induction ls with
  | nil => exact rfl
  | cons l ls ih =>
    intro s
    rw [List.map_cons, run, run, h]
    cases step s l with
    | none => rfl
    | some p =>
      obtain ⟨s₁, es⟩ := p
      simp only [Option.map_some, Prod.map_apply, id_eq]
      rw [ih]
      cases run step s₁ ls with
      | none => rfl
      | some q => rfl

/-- A machine of finer steps: each is a step of the coarser one, with the same events, or nothing
    that the coarser one sees. -/
theorem run_refines {ℓ' : Type*} {step : σ → ℓ → Option (σ × List ε)}
    {spec : κ → ℓ' → Option (κ × List ε)} {f : σ → κ} {g : ℓ → Option ℓ'}
    (hstep : ∀ {s l l' s' es}, g l = some l' → step s l = some (s', es) → spec (f s) l' = some (f s', es))
    (hquiet : ∀ {s l s' es}, g l = none → step s l = some (s', es) → f s' = f s ∧ es = []) :
    ∀ {ls : List ℓ} {s s' : σ} {τ : List ε}, run step s ls = some (s', τ) →
      run spec (f s) (ls.filterMap g) = some (f s', τ) := by
  intro ls
  induction ls with
  | nil =>
    intro s s' τ hr
    simp only [run, Option.some.injEq, Prod.mk.injEq] at hr
    obtain ⟨rfl, rfl⟩ := hr
    rfl
  | cons l ls ih =>
    intro s s' τ hr
    obtain ⟨s₁, es, τ', hs, hr', rfl⟩ := run_cons hr
    have hrest := ih hr'
    cases hg : g l with
    | none =>
      obtain ⟨hf, rfl⟩ := hquiet hg hs
      rw [List.filterMap_cons_none hg, ← hf]
      exact hrest
    | some l' =>
      rw [List.filterMap_cons_some hg, run, hstep hg hs]
      dsimp only
      rw [hrest]

/-- The machine does what the specification does, call after call: whatever the specification
    does at a label, the machine does too, emits the same and stays related to it. -/
def Follows (step : σ → ℓ → Option (σ × List ε)) (spec : κ → ℓ → Option (κ × List ε))
    (R : σ → κ → Prop) : σ → κ → List ℓ → Prop
  | s, q, [] => R s q
  | s, q, l :: ls => R s q ∧ ∀ q' es, spec q l = some (q', es) →
      ∃ s', step s l = some (s', es) ∧ Follows step spec R s' q' ls

theorem Follows.related {step : σ → ℓ → Option (σ × List ε)} {spec : κ → ℓ → Option (κ × List ε)}
    {R : σ → κ → Prop} {s : σ} {q : κ} {ls : List ℓ} (h : Follows step spec R s q ls) : R s q := by
  cases ls with
  | nil => exact h
  | cons l ls => exact h.1

/-- What the machine emits is the trace of the specification. -/
theorem Follows.run {step : σ → ℓ → Option (σ × List ε)} {spec : κ → ℓ → Option (κ × List ε)}
    {R : σ → κ → Prop} : ∀ {ls : List ℓ} {s : σ} {q q' : κ} {τ : List ε},
      Follows step spec R s q ls → run spec q ls = some (q', τ) →
      ∃ s', run step s ls = some (s', τ) ∧ R s' q' := by
  intro ls
  induction ls with
  | nil =>
    intro s q q' τ h hr
    simp only [Machine.run, Option.some.injEq, Prod.mk.injEq] at hr
    obtain ⟨rfl, rfl⟩ := hr
    exact ⟨s, rfl, h⟩
  | cons l ls ih =>
    intro s q q' τ h hr
    obtain ⟨q₁, es, τ', hs, hr', rfl⟩ := run_cons hr
    obtain ⟨s₁, hs₁, h₁⟩ := h.2 q₁ es hs
    obtain ⟨s', hrun, hR⟩ := ih h₁ hr'
    refine ⟨s', ?_, hR⟩
    rw [Machine.run, hs₁]
    dsimp only
    rw [hrun]

/-- **Exactly the runs that meet `P` follow the specification**, if an invariant that relates the
    states is kept by the steps that meet `P`, and a step that stays related does meet it. -/
theorem follows_iff_meets {step : σ → ℓ → Option (σ × List ε)} {spec : κ → ℓ → Option (κ × List ε)}
    {R : σ → κ → Prop} {P : σ → ℓ → Prop} (Inv : σ → κ → Prop) (hrel : ∀ {s q}, Inv s q → R s q)
    (hkeep : ∀ {s q l q' es}, Inv s q → P s l → spec q l = some (q', es) →
      ∃ s', step s l = some (s', es) ∧ Inv s' q')
    (hneed : ∀ {s s' q l q' es}, Inv s q → spec q l = some (q', es) → step s l = some (s', es) →
      R s' q' → P s l) :
    ∀ {ls : List ℓ} {s : σ} {q q' : κ} {τ : List ε}, Inv s q → run spec q ls = some (q', τ) →
      (Follows step spec R s q ls ↔ Meets step P s ls) := by
  intro ls
  induction ls with
  | nil => exact fun hi _ => ⟨fun _ => trivial, fun _ => hrel hi⟩
  | cons l ls ih =>
    intro s q q' τ hi hr
    obtain ⟨q₁, es, τ', hq, hr', -⟩ := run_cons hr
    constructor
    · intro hf
      obtain ⟨s₁, hs, hf₁⟩ := hf.2 q₁ es hq
      have hp : P s l := hneed hi hq hs hf₁.related
      obtain ⟨s₂, hs₂, hi₂⟩ := hkeep hi hp hq
      obtain ⟨rfl, -⟩ := Prod.mk.inj (Option.some.inj (hs.symm.trans hs₂))
      exact (meets_cons hs).mpr ⟨hp, (ih hi₂ hr').mp hf₁⟩
    · intro hm
      obtain ⟨s₁, hs, hi₁⟩ := hkeep hi hm.1 hq
      refine ⟨hrel hi, fun q₂ es₂ hq₂ => ?_⟩
      obtain ⟨rfl, rfl⟩ := Prod.mk.inj (Option.some.inj (hq.symm.trans hq₂))
      exact ⟨s₁, hs, (ih hi₁ hr').mpr (hm.2 s₁ es hs)⟩

end

/-! ## 8. Runs that come to an end -/

section

variable {step : σ → ℓ → Option (σ × List ε)} (P : ℓ → Prop) (Inv : σ → Prop) (size : σ → Nat)

/-- Steps by which a number shrinks are no more than the number. -/
theorem length_run_le
    (hstep : ∀ {s l s' es}, Inv s → P l → step s l = some (s', es) → Inv s' ∧ size s' < size s) :
    ∀ {ls : List ℓ} {s s' : σ} {τ : List ε}, Inv s → (∀ l ∈ ls, P l) → run step s ls = some (s', τ) →
      Inv s' ∧ ls.length + size s' ≤ size s := by
  intro ls
  induction ls with
  | nil =>
    intro s s' τ hi _ hr
    simp only [run, Option.some.injEq, Prod.mk.injEq] at hr
    obtain ⟨rfl, rfl⟩ := hr
    exact ⟨hi, by simp⟩
  | cons l ls ih =>
    intro s s' τ hi hp hr
    obtain ⟨s₁, es, τ', hs, hr', -⟩ := run_cons hr
    obtain ⟨hi₁, hlt⟩ := hstep hi (hp l List.mem_cons_self) hs
    obtain ⟨hi', hle⟩ := ih hi₁ (fun l' hl' => hp l' (List.mem_cons_of_mem _ hl')) hr'
    refine ⟨hi', ?_⟩
    rw [List.length_cons]
    omega

end

end Machine
end Lib
