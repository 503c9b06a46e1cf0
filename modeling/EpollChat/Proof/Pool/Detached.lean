import EpollChat.Proof.Pool.Spans

/-!
# The block a fetch returns is linked to nothing

`fetchRange` writes null into the block it takes off a list, and into the first of the blocks it
cuts a span into. It writes nothing into a span that is one block: a span fresh from `mmap` is
zero, but one that comes out of the page cache has in its first word what was written there
last, often the link of a block that used to start there. `fetchFromCentralCache` then takes
that word for the head of the thread's list.
-/

namespace EpollChat
namespace Pool
namespace Calls

open Lib Machine

/-- A block that has just been fetched has a null first word, so the loop of
    `fetchFromCentralCache` that counts what came with it finds nothing. -/
def Detached (s : State) (l : Label) : Prop :=
  ∀ s' es, step s l = some (s', es) → ∀ index a, s'.held = (index, a) :: s.held →
    s'.mem.word a = 0 ∧ walk 0 s'.mem.word 0 (s'.mem.word a) = some []

/-- No span that is to be one block comes out of the page cache with something in its first
    word. -/
def ClearSpan (s : State) : Label → Prop
  | .fetchRange index _ => index < FREE_LIST_SIZE → s.central.centralFreeList index = 0 →
      blockNum (blockSize index) ≤ 1 → ∀ e ∈ s.pages.lowerBound (spanPages (blockSize index)),
        (s.pages.spans e.2).pageAddr ≠ 0 → s.mem.word (s.pages.spans e.2).pageAddr = 0
  | _ => True

instance (s : State) : ∀ l, Decidable (ClearSpan s l)
  | .fetchRange _ _ => inferInstanceAs (Decidable (_ → _ → _ → ∀ _ ∈ _, _ → _))
  | .returnRange _ _ _ _ _ _ _ => isTrue trivial
  | .write _ _ _ _ => isTrue trivial

/-- Where a span from a bucket starts. -/
theorem allocateSpan_bucket {p p' : PageCache} {m m' : Memory} {numPages a : Nat} {answer : Option Nat}
    {e : Nat × Nat} (hlb : p.lowerBound numPages = some e)
    (h : p.allocateSpan m numPages answer = some (p', m', a)) : m' = m ∧ a = (p.spans e.2).pageAddr := by
  obtain ⟨rfl, htake⟩ := allocateSpan_take hlb h
  unfold PageCache.takeSpan at htake
  split at htake
  · exact absurd htake (by simp)
  · exact ⟨rfl, (Prod.mk.inj (Option.some.inj htake)).2.symm⟩

/-- The first word after a span has been cut up: null, or as it was if there is but one block. -/
theorem carve_first (c : CentralCache) (m : Memory) (index start : Nat) :
    (carve c m index start).2.word start =
      if 1 < blockNum (blockSize index) then 0 else m.word start := by
  unfold carve
  dsimp only
  split
  · exact Memory.store_same ..
  · rfl

theorem detached_of_null {s s' : State} {l : Label} {es : List Event} {index a : Nat}
    (h : step s l = some (s', es)) (hheld : s'.held = (index, a) :: s.held) :
    Detached s l ↔ s'.mem.word a = 0 := by
  constructor
  · exact fun hd => (hd s' es h index a hheld).1
  · intro hzero s₁ es₁ h₁ index₁ a₁ hheld₁
    rw [h, Option.some.injEq, Prod.mk.injEq] at h₁
    obtain ⟨rfl, rfl⟩ := h₁
    rw [hheld, List.cons.injEq, Prod.mk.injEq] at hheld₁
    obtain ⟨⟨-, rfl⟩, -⟩ := hheld₁
    refine ⟨hzero, ?_⟩
    rw [hzero]
    rfl

/-- A step that hands out no block. -/
theorem detached_of_same {s s' : State} {l : Label} {es : List Event} (h : step s l = some (s', es))
    (hheld : s'.held.length ≤ s.held.length) : Detached s l := by
  intro s₁ es₁ h₁ index a hcons
  rw [h, Option.some.injEq, Prod.mk.injEq] at h₁
  obtain ⟨rfl, rfl⟩ := h₁
  rw [hcons, List.length_cons] at hheld
  exact absurd hheld (Nat.not_succ_le_self _)

theorem fetchRange_detached {s s' : State} {index : Nat} {answer : Option Nat} {es : List Event}
    (h : step s (.fetchRange index answer) = some (s', es)) :
    Detached s (.fetchRange index answer) ↔ ClearSpan s (.fetchRange index answer) := by
  obtain ⟨s₁, hs₁, heq⟩ := Option.map_eq_some_iff.mp h
  obtain ⟨rfl, rfl⟩ := Prod.mk.inj heq
  rcases fetchRange_cases hs₁ with ⟨hle, rfl⟩ | ⟨hlt, hhead, hs⟩ | ⟨hlt, hempty, p, m, start, hspan, hcases⟩
  · refine ⟨fun _ hlt => absurd hlt (Nat.not_lt.mpr hle), fun _ => detached_of_same h (Nat.le_refl _)⟩
  · rw [detached_of_null h (by rw [hs])]
    refine ⟨fun _ _ hz => absurd hz hhead, fun _ => ?_⟩
    rw [hs]
    dsimp only
    rw [takeHead_mem]
    exact Memory.store_same ..
  · cases hlb : s.pages.lowerBound (spanPages (blockSize index)) with
    | some e =>
      obtain ⟨rfl, rfl⟩ := allocateSpan_bucket hlb hspan
      rcases hcases with ⟨h₀, hs⟩ | ⟨h₀, hs⟩
      · refine ⟨fun _ _ _ _ e' he' hne => ?_, fun _ => detached_of_same h (by rw [hs])⟩
        obtain rfl : e = e' := Option.some.inj (hlb.symm.trans he')
        exact absurd h₀ hne
      · rw [detached_of_null h (by rw [hs]), hs]
        dsimp only
        rw [carve_first]
        constructor
        · intro hw _ _ hone e' he' _
          obtain rfl : e = e' := Option.some.inj (hlb.symm.trans he')
          rw [if_neg (Nat.not_lt.mpr hone)] at hw
          exact hw
        · intro hclear
          split
          · rfl
          · next hone => exact hclear hlt hempty (Nat.not_lt.mp hone) e hlb h₀
    | none =>
      refine ⟨fun _ _ _ _ e he => ?_, fun _ => ?_⟩
      · rw [hlb] at he
        exact absurd he (by simp)
      · rcases hcases with ⟨-, hs⟩ | ⟨h₀, hs⟩
        · exact detached_of_same h (by rw [hs])
        · rw [detached_of_null h (by rw [hs]), hs]
          dsimp only
          rw [carve_first]
          split
          · rfl
          · rcases allocateSpan_mmap hlb hspan with ⟨h', -⟩ | ⟨-, hpos, -, rfl, -⟩
            · exact absurd h' h₀
            · exact if_pos ⟨Nat.le_refl _, Nat.lt_add_of_pos_right hpos⟩

/-- **A fetched block is detached, exactly if no span that is one block comes out of the page
    cache with a first word that is not null.** -/
theorem fetched_detached_iff {ls : List Label} {s : State} {τ : List Event}
    (hr : run step {} ls = some (s, τ)) : Meets step Detached {} ls ↔ Meets step ClearSpan {} ls := by
  refine meets_congr (R := fun _ _ => True) (fun _ => True) (fun _ _ _ => trivial) ?_ trivial
    (meets_of_labels fun _ _ => trivial) hr
  intro s l s' es _ _ hs
  cases l with
  | fetchRange index answer => exact fetchRange_detached hs
  | returnRange start size index now later order rounds =>
    refine ⟨fun _ => trivial, fun _ => detached_of_same hs ?_⟩
    rcases returnRange_cases (step_returnRange hs).2 with ⟨-, rfl, -⟩ | ⟨-, -, ⟨-, rfl, -⟩ | ⟨-, l, -, rfl⟩⟩
    · exact Nat.le_refl _
    · exact List.length_filter_le ..
    · exact List.length_filter_le ..
  | write index block a v =>
    refine ⟨fun _ => trivial, fun _ => detached_of_same hs ?_⟩
    simp only [Calls.step] at hs
    split at hs
    · obtain ⟨rfl, -⟩ := Prod.mk.inj (Option.some.inj hs)
      exact Nat.le_refl _
    · exact absurd hs (by simp)

/-- A span of four blocks is fetched and goes back; the order of the returns decides what is in
    its first word then. The last fetch gets it as one block. -/
def recycle (first second : Nat) : List Label :=
  [.fetchRange 1023 (some 4096), .fetchRange 1023 none, .fetchRange 1023 none, .fetchRange 1023 none,
    .returnRange first 8192 1023 0 0 [] 0, .returnRange second 8192 1023 0 0 [] 0,
    .returnRange 20480 8192 1023 0 0 [] 0, .returnRange 28672 8192 1023 1000 1000 [0] 4]

theorem fetched_detached_recycle : ∃ s τ,
    run step {} (recycle 4096 12288 ++ [.fetchRange 4095 none]) = some (s, τ) ∧
    s.held = [(4095, 4096)] ∧ Meets step Detached {} (recycle 4096 12288 ++ [.fetchRange 4095 none]) := by
  obtain ⟨⟨s, τ⟩, hr, hs⟩ := Option.map_eq_some_iff.mp
    (show (run step {} (recycle 4096 12288 ++ [.fetchRange 4095 none])).map (fun p => p.1.held) =
      some [(4095, 4096)] by decide +kernel)
  exact ⟨s, τ, hr, hs, (fetched_detached_iff hr).mpr (by decide +kernel)⟩

/-- Returned the other way round, the first block is linked to the second one. -/
theorem fetched_not_detached : ∃ s τ s' es,
    run step {} (recycle 12288 4096) = some (s, τ) ∧ step s (.fetchRange 4095 none) = some (s', es) ∧
    s'.held = (4095, 4096) :: s.held ∧ s'.mem.word 4096 = 12288 ∧ ¬ Detached s (.fetchRange 4095 none) := by
  obtain ⟨⟨s, τ⟩, hr, hs⟩ := Option.bind_eq_some_iff.mp (show ((run step {} (recycle 12288 4096)).bind
    fun p => (step p.1 (.fetchRange 4095 none)).map fun q => (p.1.held, q.1.held, q.1.mem.word 4096)) =
      some ([], [(4095, 4096)], 12288) by decide +kernel)
  obtain ⟨⟨s', es⟩, hs', heq⟩ := Option.map_eq_some_iff.mp hs
  simp only [Prod.mk.injEq] at heq
  obtain ⟨h₁, h₂, h₃⟩ := heq
  have hheld : s'.held = (4095, 4096) :: s.held := by rw [h₁, h₂]
  refine ⟨s, τ, s', es, hr, hs', hheld, h₃, fun hd => ?_⟩
  have := (hd s' es hs' 4095 4096 hheld).1
  rw [h₃] at this
  exact absurd this (by simp)

end Calls
end Pool
end EpollChat
