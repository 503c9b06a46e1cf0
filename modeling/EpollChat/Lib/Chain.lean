import Mathlib.Data.List.Basic
import Mathlib.Data.List.Nodup
import Mathlib.Logic.Function.Basic
import Mathlib.Logic.Function.Iterate

/-!
# Null-terminated lists threaded through a memory

`next` is a memory of links. `Chain null next h l` says that following the links from `h`
visits the cells `l`, in that order, and then `null`. A cell determines the rest of its
chain, so a chain never visits a cell twice.

`Lists` is the invariant of an allocator's free lists: many chains in one memory, and a map
that says of every cell which of them it is on, if any. As the map is a function, no cell is
on two of them. `Lists.replace` says how it changes when one list becomes another; taking a
cell off the front, putting one in front and laying out a new chain are cases of it. What is
written to a cell that is on no list is nobody's business.
-/

namespace Lib

universe u v

variable {α : Type u} {ι : Type v} {null : α}

/-! ## 1. Chains -/

def Chain (null : α) (next : α → α) : α → List α → Prop
  | h, [] => h = null
  | h, a :: l => h = a ∧ a ≠ null ∧ Chain null next (next a) l

/-- `a` is met when following the links from `h`. -/
inductive OnList (null : α) (next : α → α) : α → α → Prop where
  | head {a : α} (h : a ≠ null) : OnList null next a a
  | next {h a : α} (hh : h ≠ null) (ha : OnList null next (next h) a) : OnList null next h a

namespace Chain

theorem unique {next : α → α} : ∀ {l l' : List α} {h : α}, Chain null next h l →
    Chain null next h l' → l = l' := by
  intro l
  induction l with
  | nil =>
    intro l' h hc hc'
    cases l' with
    | nil => rfl
    | cons a l' => exact absurd (hc'.1.symm.trans hc) hc'.2.1
  | cons a l ih =>
    intro l' h hc hc'
    cases l' with
    | nil => exact absurd (hc.1.symm.trans hc') hc.2.1
    | cons a' l' =>
      obtain rfl : a = a' := hc.1.symm.trans hc'.1
      rw [ih hc.2.2 hc'.2.2]

theorem congr {next next' : α → α} : ∀ {l : List α} {h : α}, (∀ a ∈ l, next' a = next a) →
    Chain null next h l → Chain null next' h l := by
  intro l
  induction l with
  | nil => exact fun _ hc => hc
  | cons a l ih =>
    intro h heq hc
    refine ⟨hc.1, hc.2.1, ?_⟩
    rw [heq a List.mem_cons_self]
    exact ih (fun b hb => heq b (List.mem_cons_of_mem _ hb)) hc.2.2

/-- From the middle of a chain on. -/
theorem of_append {next : α → α} : ∀ {l : List α} {a h : α} {l' : List α},
    Chain null next h (l ++ a :: l') → Chain null next a (a :: l') := by
  intro l
  induction l with
  | nil =>
    intro a h l' hc
    obtain rfl := hc.1
    exact hc
  | cons b l ih => exact fun hc => ih hc.2.2

theorem nodup {next : α → α} : ∀ {l : List α} {h : α}, Chain null next h l → l.Nodup := by
  intro l
  induction l with
  | nil => exact fun _ => List.nodup_nil
  | cons a l ih =>
    intro h hc
    rw [List.nodup_cons]
    refine ⟨fun hm => ?_, ih hc.2.2⟩
    -- the chain from the second visit is the chain from the first, and shorter
    obtain ⟨l₁, l₂, rfl⟩ := List.append_of_mem hm
    have hfirst : Chain null next a (a :: (l₁ ++ a :: l₂)) := ⟨rfl, hc.2.1, hc.2.2⟩
    have hlen := congrArg List.length (unique hfirst (of_append hc.2.2))
    simp only [List.length_cons, List.length_append] at hlen
    omega

theorem ne_null {next : α → α} : ∀ {l : List α} {h : α}, Chain null next h l → ∀ a ∈ l, a ≠ null := by
  intro l
  induction l with
  | nil => exact fun _ a ha => absurd ha (by simp)
  | cons b l ih =>
    intro h hc a ha
    rcases List.mem_cons.mp ha with rfl | ha
    · exact hc.2.1
    · exact ih hc.2.2 a ha

/-- The first cell of a chain that does not start at `null`. -/
theorem uncons {next : α → α} {h : α} {l : List α} (hc : Chain null next h l) (hh : h ≠ null) :
    ∃ l', l = h :: l' ∧ Chain null next (next h) l' := by
  cases l with
  | nil => exact absurd hc hh
  | cons a l =>
    obtain rfl := hc.1
    exact ⟨l, rfl, hc.2.2⟩

theorem onList_iff {next : α → α} {l : List α} {h a : α} (hc : Chain null next h l) :
    OnList null next h a ↔ a ∈ l := by
  constructor
  · intro ho
    induction ho generalizing l with
    | head hh =>
      obtain ⟨l', rfl, -⟩ := hc.uncons hh
      exact List.mem_cons_self
    | next hh _ ih =>
      obtain ⟨l', rfl, hc'⟩ := hc.uncons hh
      exact List.mem_cons_of_mem _ (ih hc')
  · induction l generalizing h with
    | nil => exact fun ha => absurd ha (by simp)
    | cons b l ih =>
      intro ha
      obtain rfl := hc.1
      rcases List.mem_cons.mp ha with rfl | ha
      · exact .head hc.2.1
      · exact .next hc.2.1 (ih hc.2.2 ha)

/-- Cells laid out one after the other, each linked to the one behind it. -/
theorem of_range {next : α → α} {f : Nat → α} : ∀ {n i : Nat},
    (∀ j, i ≤ j → j ≤ i + n → f j ≠ null) → (∀ j, i ≤ j → j < i + n → next (f j) = f (j + 1)) →
    next (f (i + n)) = null → Chain null next (f i) ((List.range' i (n + 1)).map f) := by
  intro n
  induction n with
  | zero =>
    intro i hne _ hlast
    exact ⟨rfl, hne i (Nat.le_refl _) (Nat.le_refl _), hlast⟩
  | succ n ih =>
    intro i hne hlink hlast
    refine ⟨rfl, hne i (Nat.le_refl _) (by omega), ?_⟩
    rw [hlink i (Nat.le_refl _) (by omega)]
    refine ih (fun j hj hj' => hne j (by omega) (by omega))
      (fun j hj hj' => hlink j (by omega) (by omega)) ?_
    rw [show i + 1 + n = i + (n + 1) by omega]
    exact hlast

/-- Following the links leads to the cells in turn. -/
theorem iterate {next : α → α} : ∀ {l : List α} {h p : α} {l' : List α},
    Chain null next h (l ++ p :: l') → next^[l.length] h = p := by
  intro l
  induction l with
  | nil => exact fun hc => hc.1
  | cons a l ih =>
    intro h p l' hc
    obtain rfl := hc.1
    exact ih hc.2.2

/-- Another chain is put behind `p`. -/
theorem splice {next next' : α → α} : ∀ {l : List α} {h p : α} {l' l'' : List α},
    Chain null next h (l ++ p :: l') → (∀ a ∈ l, next' a = next a) → Chain null next' (next' p) l'' →
    Chain null next' h (l ++ p :: l'') := by
  intro l
  induction l with
  | nil => exact fun hc _ hl'' => ⟨hc.1, hc.2.1, hl''⟩
  | cons a l ih =>
    intro h p l' l'' hc hl hl''
    refine ⟨hc.1, hc.2.1, ?_⟩
    rw [hl a List.mem_cons_self]
    exact ih hc.2.2 (fun b hb => hl b (List.mem_cons_of_mem _ hb)) hl''

/-- The cell behind `p` is cut out. -/
theorem cut {next next' : α → α} {l : List α} {h p c : α} {l' : List α}
    (hc : Chain null next h (l ++ p :: c :: l')) (hp : next' p = next c)
    (hl : ∀ a ∈ l, next' a = next a) (hl' : ∀ a ∈ l', next' a = next a) :
    Chain null next' h (l ++ p :: l') := by
  refine hc.splice hl ?_
  rw [hp]
  exact hc.of_append.2.2.2.2.congr hl'

end Chain

/-! ## 2. Walking a chain -/

section Walk

variable [DecidableEq α]

/-- Follow the links for at most `rounds` cells. -/
def walk (null : α) (next : α → α) : Nat → α → Option (List α)
  | rounds, h =>
      if h = null then some []
      else
        match rounds with
        | 0 => none
        | rounds + 1 => (walk null next rounds (next h)).map (h :: ·)

theorem walk_chain {next : α → α} : ∀ {rounds : Nat} {h : α} {l : List α},
    walk null next rounds h = some l → Chain null next h l := by
  intro rounds
  induction rounds with
  | zero =>
    intro h l hw
    unfold walk at hw
    split at hw
    · next hh =>
      rw [← Option.some.inj hw]
      exact hh
    · exact absurd hw (by simp)
  | succ rounds ih =>
    intro h l hw
    unfold walk at hw
    split at hw
    · next hh =>
      rw [← Option.some.inj hw]
      exact hh
    · next hh =>
      obtain ⟨l', hl', rfl⟩ := Option.map_eq_some_iff.mp hw
      exact ⟨rfl, hh, ih hl'⟩

/-- A chain is walked to its end. -/
theorem Chain.walk_eq {next : α → α} : ∀ {l : List α} {rounds : Nat} {h : α},
    Chain null next h l → l.length ≤ rounds → walk null next rounds h = some l := by
  intro l
  induction l with
  | nil =>
    intro rounds h hc _
    unfold walk
    rw [if_pos (show h = null from hc)]
  | cons a l ih =>
    intro rounds h hc hlen
    obtain ⟨rfl, ha, hc'⟩ := hc
    cases rounds with
    | zero => exact absurd hlen (by simp)
    | succ rounds =>
      unfold walk
      rw [if_neg ha]
      dsimp only
      rw [ih hc' (Nat.le_of_succ_le_succ hlen)]
      rfl

end Walk

/-! ## 3. Many lists in one memory -/

/-- The list `k` starts at `heads k`, and `place a` the list `a` is on. -/
def Lists (null : α) (next : α → α) (heads : ι → α) (place : α → Option ι) : Prop :=
  ∀ k, ∃ l, Chain null next (heads k) l ∧ ∀ a, a ∈ l ↔ place a = some k

namespace Lists

theorem onList_iff {next : α → α} {heads : ι → α} {place : α → Option ι}
    (hl : Lists null next heads place) {k : ι} {a : α} :
    OnList null next (heads k) a ↔ place a = some k := by
  obtain ⟨l, hc, hmem⟩ := hl k
  rw [hc.onList_iff, hmem]

theorem place_head {next : α → α} {heads : ι → α} {place : α → Option ι}
    (hl : Lists null next heads place) {k : ι} (hk : heads k ≠ null) :
    place (heads k) = some k :=
  hl.onList_iff.mp (.head hk)

/-- A list that keeps its cells keeps its length, in whatever order it has them. -/
theorem length_eq {next next' : α → α} {heads heads' : ι → α} {place place' : α → Option ι}
    (hl : Lists null next heads place) (hl' : Lists null next' heads' place') {k : ι}
    (hplace : ∀ a, place' a = some k ↔ place a = some k) {l l' : List α}
    (hc : Chain null next (heads k) l) (hc' : Chain null next' (heads' k) l') : l'.length = l.length := by
  refine ((List.perm_ext_iff_of_nodup hc'.nodup hc.nodup).mpr fun a => ?_).length_eq
  rw [← hc'.onList_iff, ← hc.onList_iff, hl'.onList_iff, hl.onList_iff, hplace a]

/-- Nobody's links have changed. -/
theorem frame {next next' : α → α} {heads : ι → α} {place : α → Option ι}
    (hl : Lists null next heads place) (hn : ∀ a k, place a = some k → next' a = next a) :
    Lists null next' heads place := by
  intro k
  obtain ⟨l, hc, hmem⟩ := hl k
  exact ⟨l, hc.congr fun a ha => hn a k ((hmem a).mp ha), hmem⟩

variable [DecidableEq ι]

/-- The list `k` is replaced by another chain, and every other list stays as it is. -/
theorem replace {next next' : α → α} {heads : ι → α} {place place' : α → Option ι}
    (hl : Lists null next heads place) {k : ι} {h : α} {l : List α} (hc : Chain null next' h l)
    (hk : ∀ a, a ∈ l ↔ place' a = some k)
    (hother : ∀ a j, j ≠ k → (place' a = some j ↔ place a = some j))
    (hn : ∀ a j, j ≠ k → place a = some j → next' a = next a) :
    Lists null next' (Function.update heads k h) place' := by
  intro j
  by_cases hj : j = k
  · subst hj
    exact ⟨l, by rw [Function.update_self]; exact hc, hk⟩
  · obtain ⟨lj, hcj, hmem⟩ := hl j
    refine ⟨lj, ?_, fun a => by rw [hmem, hother a j hj]⟩
    rw [Function.update_of_ne hj]
    exact hcj.congr fun a ha => hn a j hj ((hmem a).mp ha)

/-- Lay out a chain of cells that were on no list, for a list that was empty. -/
theorem fill {next next' : α → α} {heads : ι → α} {place place' : α → Option ι}
    (hl : Lists null next heads place) {k : ι} {h : α} {l : List α} (hk : heads k = null)
    (hc : Chain null next' h l) (hfree : ∀ a ∈ l, place a = none)
    (hn : ∀ a j, place a = some j → next' a = next a)
    (hin : ∀ a ∈ l, place' a = some k) (hout : ∀ a, a ∉ l → place' a = place a) :
    Lists null next' (Function.update heads k h) place' := by
  have hempty : ∀ a, place a ≠ some k := by
    intro a ha
    obtain ⟨lk, hck, hmem⟩ := hl k
    rw [hk] at hck
    rw [← hmem, show lk = [] from hck.unique (rfl : Chain null next null [])] at ha
    exact absurd ha (by simp)
  refine hl.replace hc (fun a => ⟨hin a, fun ha => ?_⟩) (fun a j hj => ?_) fun a j _ ha => hn a j ha
  · by_contra hnot
    rw [hout a hnot] at ha
    exact hempty a ha
  · by_cases ha : a ∈ l
    · rw [hfree a ha, hin a ha]
      exact ⟨fun h => absurd (Option.some.inj h).symm hj, fun h => absurd h (by simp)⟩
    · rw [hout a ha]

variable [DecidableEq α]

omit [DecidableEq ι] in
/-- A cell that comes from elsewhere and goes elsewhere is no matter to the list `j`. -/
theorem update_place_iff {place : α → Option ι} {a b : α} {v : Option ι} {j : ι}
    (hold : place a ≠ some j) (hnew : v ≠ some j) :
    Function.update place a v b = some j ↔ place b = some j := by
  by_cases hb : b = a
  · rw [hb, Function.update_self]
    exact ⟨fun h => absurd h hnew, fun h => absurd h hold⟩
  · rw [Function.update_of_ne hb]

/-- Take the first cell off the list `k`. -/
theorem pop {next next' : α → α} {heads : ι → α} {place : α → Option ι}
    (hl : Lists null next heads place) {k : ι} (hk : heads k ≠ null)
    (hn : ∀ a j, place a = some j → a ≠ heads k → next' a = next a) :
    Lists null next' (Function.update heads k (next (heads k)))
      (Function.update place (heads k) none) := by
  have hplace := hl.place_head hk
  obtain ⟨l, hc, hmem⟩ := hl k
  obtain ⟨l', rfl, hc'⟩ := hc.uncons hk
  obtain ⟨hnot, -⟩ := List.nodup_cons.mp hc.nodup
  have hne : ∀ a ∈ l', a ≠ heads k := fun a ha h => hnot (h ▸ ha)
  refine hl.replace (l := l') ?_ (fun a => ?_) (fun a j hj => ?_) fun a j hj ha => ?_
  · exact hc'.congr fun a ha => hn a k ((hmem a).mp (List.mem_cons_of_mem _ ha)) (hne a ha)
  · by_cases ha : a = heads k
    · subst ha
      rw [Function.update_self]
      exact ⟨fun h => absurd h hnot, fun h => absurd h (by simp)⟩
    · rw [Function.update_of_ne ha, ← hmem a, List.mem_cons]
      exact ⟨Or.inr, fun h => h.resolve_left ha⟩
  · exact update_place_iff (by rw [hplace]; exact fun h => hj (Option.some.inj h).symm) (by simp)
  · refine hn a j ha fun h => ?_
    rw [h, hplace] at ha
    exact hj (Option.some.inj ha).symm

/-- Put a cell that is on no list in front of the list `k`. -/
theorem push {next next' : α → α} {heads : ι → α} {place : α → Option ι}
    (hl : Lists null next heads place) {k : ι} {a : α} (ha : a ≠ null) (hfree : place a = none)
    (hlink : next' a = heads k) (hn : ∀ b j, place b = some j → next' b = next b) :
    Lists null next' (Function.update heads k a) (Function.update place a (some k)) := by
  obtain ⟨l, hc, hmem⟩ := hl k
  refine hl.replace (l := a :: l) ⟨rfl, ha, ?_⟩ (fun b => ?_) (fun b j hj => ?_) fun b j _ hb => hn b j hb
  · rw [hlink]
    exact hc.congr fun b hb => hn b k ((hmem b).mp hb)
  · by_cases hb : b = a
    · subst hb
      simp
    · rw [Function.update_of_ne hb, ← hmem b, List.mem_cons]
      exact ⟨fun h => h.resolve_left hb, Or.inr⟩
  · exact update_place_iff (by rw [hfree]; simp) fun h => hj (Option.some.inj h).symm

end Lists

end Lib
