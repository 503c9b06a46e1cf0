import EpollChat.Lib.Chain
import EpollChat.Pool.PageCalls

/-!
# The free lists of the page cache

`freeSpans_` is a map from page counts to list heads. Absent keys and null heads are alike to
whoever follows the lists, so the lists start at `heads`, which reads both as null. What
`deallocateSpan` does to the lists before it puts its span on one of them is said in
`unlinkFree_lists`: the neighbour is on none of them afterwards, and `found` tells whether it
was on one before. The last sections say what a whole call does, for the invariants of the
modules that follow.
-/

namespace EpollChat
namespace Pool

open Lib

/-! ## 1. The map -/

def SortedKeys (m : List (Nat × Nat)) : Prop := m.Pairwise fun e e' => e.1 < e'.1

theorem lookup_mapSet (m : List (Nat × Nat)) (key value k : Nat) :
    (mapSet m key value).lookup k = if k = key then some value else m.lookup k := by
  induction m with
  | nil =>
    by_cases hk : k = key
    · simp [mapSet, hk]
    · simp [mapSet, List.lookup_cons, hk, beq_eq_false_iff_ne.mpr hk]
  | cons e m ih =>
    unfold mapSet
    split
    · by_cases hk : k = key
      · simp [hk]
      · rw [List.lookup_cons, beq_eq_false_iff_ne.mpr hk, if_neg hk]
    · split
      · next hlt heq =>
        by_cases hk : k = key
        · simp [hk]
        · rw [List.lookup_cons, List.lookup_cons, beq_eq_false_iff_ne.mpr hk,
            beq_eq_false_iff_ne.mpr (fun h => hk (h.trans heq.symm)), if_neg hk]
      · next hlt hne =>
        rw [List.lookup_cons, List.lookup_cons, ih]
        by_cases hk : k = key
        · rw [beq_eq_false_iff_ne.mpr (fun h => hne (hk.symm.trans h)), if_pos hk]
        · rw [if_neg hk, if_neg hk]

theorem mapGet_mapSet (m : List (Nat × Nat)) (key value : Nat) :
    mapGet (mapSet m key value) = Function.update (mapGet m) key value := by
  funext k
  unfold mapGet
  rw [lookup_mapSet]
  by_cases hk : k = key
  · rw [hk, if_pos rfl, Function.update_self]
    rfl
  · rw [if_neg hk, Function.update_of_ne hk]

theorem lookup_mapErase (m : List (Nat × Nat)) (key k : Nat) :
    (mapErase m key).lookup k = if k = key then none else m.lookup k := by
  induction m with
  | nil => simp [mapErase]
  | cons e m ih =>
    unfold mapErase at ih ⊢
    rw [List.filter_cons]
    split
    · next hne =>
      have hne : e.1 ≠ key := of_decide_eq_true hne
      rw [List.lookup_cons, List.lookup_cons, ih]
      by_cases hk : k = key
      · rw [beq_eq_false_iff_ne.mpr (fun h => hne (h.symm.trans hk)), if_pos hk]
      · rw [if_neg hk, if_neg hk]
    · next heq =>
      have heq : e.1 = key := by simpa using heq
      rw [ih, List.lookup_cons]
      by_cases hk : k = key
      · rw [if_pos hk, if_pos hk]
      · rw [if_neg hk, if_neg hk, beq_eq_false_iff_ne.mpr (fun h => hk (h.trans heq))]

theorem mapGet_mapErase (m : List (Nat × Nat)) (key : Nat) :
    mapGet (mapErase m key) = Function.update (mapGet m) key 0 := by
  funext k
  unfold mapGet
  rw [lookup_mapErase]
  by_cases hk : k = key
  · rw [hk, if_pos rfl, Function.update_self]
    rfl
  · rw [if_neg hk, Function.update_of_ne hk]

theorem mem_mapSet {m : List (Nat × Nat)} {key value : Nat} {e : Nat × Nat} (h : e ∈ mapSet m key value) :
    e = (key, value) ∨ (e ∈ m ∧ (SortedKeys m → e.1 ≠ key)) := by
  induction m with
  | nil => exact Or.inl (List.mem_singleton.mp h)
  | cons x m ih =>
    unfold mapSet at h
    split at h
    · next hlt =>
      rcases List.mem_cons.mp h with h | h
      · exact Or.inl h
      · refine Or.inr ⟨h, fun hs heq => ?_⟩
        rcases List.mem_cons.mp h with rfl | h
        · omega
        · have := (List.pairwise_cons.mp hs).1 e h
          omega
    · split at h
      · next hlt heq =>
        rcases List.mem_cons.mp h with h | h
        · exact Or.inl h
        · refine Or.inr ⟨List.mem_cons_of_mem _ h, fun hs heq' => ?_⟩
          have := (List.pairwise_cons.mp hs).1 e h
          omega
      · next hlt hne =>
        rcases List.mem_cons.mp h with rfl | h
        · exact Or.inr ⟨List.mem_cons_self, fun _ heq => hne heq.symm⟩
        · rcases ih h with h | ⟨h, hk⟩
          · exact Or.inl h
          · exact Or.inr ⟨List.mem_cons_of_mem _ h, fun hs => hk (List.pairwise_cons.mp hs).2⟩

theorem mem_mapSet_self (m : List (Nat × Nat)) (key value : Nat) : (key, value) ∈ mapSet m key value := by
  induction m with
  | nil => exact List.mem_singleton_self _
  | cons x m ih =>
    unfold mapSet
    split
    · exact List.mem_cons_self
    · split
      · exact List.mem_cons_self
      · exact List.mem_cons_of_mem _ ih

theorem mem_mapSet_of_ne {m : List (Nat × Nat)} {key value : Nat} {e : Nat × Nat} (he : e ∈ m)
    (hne : e.1 ≠ key) : e ∈ mapSet m key value := by
  induction m with
  | nil => exact absurd he (by simp)
  | cons x m ih =>
    unfold mapSet
    split
    · exact List.mem_cons_of_mem _ he
    · split
      · next heq =>
        rcases List.mem_cons.mp he with rfl | he
        · exact absurd heq.symm hne
        · exact List.mem_cons_of_mem _ he
      · rcases List.mem_cons.mp he with rfl | he
        · exact List.mem_cons_self
        · exact List.mem_cons_of_mem _ (ih he)

theorem SortedKeys.mapSet {m : List (Nat × Nat)} (hs : SortedKeys m) (key value : Nat) :
    SortedKeys (mapSet m key value) := by
  induction m with
  | nil => exact List.pairwise_singleton ..
  | cons x m ih =>
    obtain ⟨hx, hm⟩ := List.pairwise_cons.mp hs
    unfold Pool.mapSet
    split
    · next hlt =>
      refine List.pairwise_cons.mpr ⟨fun e he => ?_, hs⟩
      rcases List.mem_cons.mp he with rfl | he
      · exact hlt
      · exact Nat.lt_trans hlt (hx e he)
    · split
      · next hlt heq =>
        refine List.pairwise_cons.mpr ⟨fun e he => ?_, hm⟩
        rw [show (key, value).1 = x.1 from heq]
        exact hx e he
      · next hlt hne =>
        refine List.pairwise_cons.mpr ⟨fun e he => ?_, ih hm⟩
        rcases mem_mapSet he with rfl | ⟨he, -⟩
        · exact Nat.lt_of_le_of_ne (Nat.not_lt.mp hlt) (Ne.symm hne)
        · exact hx e he

theorem SortedKeys.mapErase {m : List (Nat × Nat)} (hs : SortedKeys m) (key : Nat) :
    SortedKeys (mapErase m key) := List.Pairwise.filter _ hs

/-- An entry is what `operator[]` reads. -/
theorem SortedKeys.mapGet_of_mem {m : List (Nat × Nat)} (hs : SortedKeys m) {key value : Nat}
    (h : (key, value) ∈ m) : mapGet m key = value := by
  induction m with
  | nil => exact absurd h (by simp)
  | cons x m ih =>
    obtain ⟨hx, hm⟩ := List.pairwise_cons.mp hs
    unfold mapGet at ih ⊢
    rw [List.lookup_cons]
    rcases List.mem_cons.mp h with rfl | h
    · simp
    · have hlt := hx _ h
      rw [beq_eq_false_iff_ne.mpr (Nat.ne_of_gt hlt)]
      exact ih hm h

/-- A value that is not null is the value of an entry. -/
theorem mem_of_mapGet {m : List (Nat × Nat)} {key : Nat} (h : mapGet m key ≠ 0) :
    (key, mapGet m key) ∈ m := by
  unfold mapGet at h ⊢
  cases hl : m.lookup key with
  | none => rw [hl] at h; exact absurd rfl h
  | some v =>
    obtain ⟨l₁, l₂, rfl, -⟩ := List.lookup_eq_some_iff.mp hl
    simp

/-! ## 2. The lists -/

namespace PageCache

def links (p : PageCache) (span : Nat) : Nat := (p.spans span).next

def heads (p : PageCache) : Nat → Nat := mapGet p.freeSpans

/-- Nothing but links and heads has changed. -/
structure SameRecords (p p' : PageCache) : Prop where
  addr : ∀ r, (p'.spans r).pageAddr = (p.spans r).pageAddr
  pages : ∀ r, (p'.spans r).numPages = (p.spans r).numPages
  next : p'.nextSpan = p.nextSpan
  map : p'.spanMap = p.spanMap

theorem setNext_same (p : PageCache) (q n : Nat) :
    SameRecords p (p.setSpan q { p.spans q with next := n }) := by
  refine ⟨fun r => ?_, fun r => ?_, rfl, rfl⟩
  · show (Function.update p.spans q _ r).pageAddr = _
    by_cases hr : r = q
    · rw [hr, Function.update_self]
    · rw [Function.update_of_ne hr]
  · show (Function.update p.spans q _ r).numPages = _
    by_cases hr : r = q
    · rw [hr, Function.update_self]
    · rw [Function.update_of_ne hr]

theorem links_setSpan (p : PageCache) (q : Nat) (v : Span) :
    (p.setSpan q v).links = Function.update p.links q v.next := by
  funext r
  show (Function.update p.spans q v r).next = _
  by_cases hr : r = q
  · rw [hr, Function.update_self, Function.update_self]
  · rw [Function.update_of_ne hr, Function.update_of_ne hr]
    rfl

/-- One round of `unlinkBehind`: the list ends, its target is next, or the walk goes on. -/
theorem unlinkBehind_step {p p' : PageCache} {target rounds prev : Nat} {found : Bool}
    (h : unlinkBehind p target rounds prev = some (p', found)) :
    (p.links prev = 0 ∧ found = false ∧ p' = p) ∨
    (p.links prev ≠ 0 ∧ p.links prev = target ∧ found = true ∧
      p' = p.setSpan prev { p.spans prev with next := (p.spans target).next }) ∨
    (p.links prev ≠ 0 ∧ p.links prev ≠ target ∧
      ∃ left, rounds = left + 1 ∧ unlinkBehind p target left (p.links prev) = some (p', found)) := by
  unfold unlinkBehind at h
  dsimp only at h
  split at h
  · next hnull =>
    simp only [Option.some.injEq, Prod.mk.injEq] at h
    exact Or.inl ⟨hnull, h.2.symm, h.1.symm⟩
  · next hnext =>
    split at h
    · next heq =>
      simp only [Option.some.injEq, Prod.mk.injEq] at h
      exact Or.inr (Or.inl ⟨hnext, heq, h.2.symm, h.1.symm⟩)
    · next hne =>
      cases rounds with
      | zero => exact absurd h (by simp)
      | succ left => exact Or.inr (Or.inr ⟨hnext, hne, left, rfl, h⟩)

/-- The walk of `unlinkBehind`, along the chain that starts at `prev`. -/
theorem unlinkBehind_spec {p p' : PageCache} {target : Nat} {found : Bool} :
    ∀ {rest : List Nat} {rounds prev : Nat}, Chain 0 p.links prev (prev :: rest) →
      unlinkBehind p target rounds prev = some (p', found) →
      (found = false ∧ p' = p ∧ target ∉ rest) ∨
      (found = true ∧ ∃ l q l', prev :: rest = l ++ q :: target :: l' ∧
        p' = p.setSpan q { p.spans q with next := (p.spans target).next }) := by
  intro rest
  induction rest with
  | nil =>
    intro rounds prev hc h
    have hend : p.links prev = 0 := hc.2.2
    rcases unlinkBehind_step h with ⟨-, hf, hp⟩ | ⟨hnext, -⟩ | ⟨hnext, -⟩
    · exact Or.inl ⟨hf, hp, by simp⟩
    · exact absurd hend hnext
    · exact absurd hend hnext
  | cons b rest ih =>
    intro rounds prev hc h
    obtain ⟨hb, hb₀, hrest⟩ := hc.2.2
    rcases unlinkBehind_step h with ⟨hend, -⟩ | ⟨-, heq, hf, hp⟩ | ⟨-, hne, left, -, h⟩
    · exact absurd (hb.symm.trans hend) hb₀
    · refine Or.inr ⟨hf, [], prev, rest, ?_, hp⟩
      rw [← heq, hb]
      rfl
    · rw [hb] at hne h
      rcases ih ⟨rfl, hb₀, hrest⟩ h with ⟨hf, hp, hnot⟩ | ⟨hf, l, q, l', hsplit, hp⟩
      · refine Or.inl ⟨hf, hp, fun hm => ?_⟩
        rcases List.mem_cons.mp hm with heq | hm
        · exact hne heq.symm
        · exact hnot hm
      · exact Or.inr ⟨hf, prev :: l, q, l', by rw [hsplit]; rfl, hp⟩

/-- As many rounds as the chain has cells do. -/
theorem unlinkBehind_isSome {p : PageCache} {target : Nat} :
    ∀ {rest : List Nat} {prev : Nat}, Chain 0 p.links prev (prev :: rest) →
      (unlinkBehind p target rest.length prev).isSome := by
  intro rest
  induction rest with
  | nil =>
    intro prev hc
    unfold unlinkBehind
    rw [if_pos (show (p.spans prev).next = 0 from hc.2.2)]
    rfl
  | cons b rest ih =>
    intro prev hc
    obtain ⟨hb, hb₀, hrest⟩ := hc.2.2
    have hnext : (p.spans prev).next = b := hb
    unfold unlinkBehind
    dsimp only
    rw [hnext, if_neg hb₀]
    split
    · rfl
    · rw [List.length_cons]
      exact ih ⟨rfl, hb₀, hrest⟩

/-- What `freeSpans_[key]` leaves behind. -/
def probe (p : PageCache) (key : Nat) : PageCache :=
  { p with freeSpans := mapSet p.freeSpans key (mapGet p.freeSpans key) }

/-- It changes no list. -/
theorem heads_probe (p : PageCache) (key : Nat) : (p.probe key).heads = p.heads := by
  show mapGet (mapSet p.freeSpans key (mapGet p.freeSpans key)) = mapGet p.freeSpans
  rw [mapGet_mapSet, Function.update_eq_self]

section

variable {p p' : PageCache} {place : Nat → Option Nat} {target : Nat}

/-- One cell further down a list is taken off it. -/
theorem lists_cut {key q : Nat} {l l' : List Nat} (hl : Lists 0 p.links p.heads place)
    (hc : Chain 0 p.links (p.heads key) (l ++ q :: target :: l'))
    (hlinks : p'.links = Function.update p.links q (p.links target)) (hheads : p'.heads = p.heads) :
    Lists 0 p'.links p'.heads (Function.update place target none) := by
  obtain ⟨l₀, hc₀, hmem⟩ := hl key
  obtain rfl := hc₀.unique hc
  have hnodup := hc.nodup
  obtain ⟨-, hqt, hdisj⟩ := List.nodup_append.mp hnodup
  obtain ⟨hq, ht⟩ := List.nodup_cons.mp hqt
  obtain ⟨ht, -⟩ := List.nodup_cons.mp ht
  have hother : ∀ a, a ≠ q → p'.links a = p.links a := by
    intro a ha
    rw [hlinks, Function.update_of_ne ha]
  have hl₁ : ∀ a ∈ l, a ≠ q := fun a ha => hdisj a ha q List.mem_cons_self
  have hl₂ : ∀ a ∈ l', a ≠ q := fun a ha h => hq (h ▸ List.mem_cons_of_mem _ ha)
  have hchain : Chain 0 p'.links (p.heads key) (l ++ q :: l') :=
    hc.cut (by rw [hlinks, Function.update_self]) (fun a ha => hother a (hl₁ a ha))
      (fun a ha => hother a (hl₂ a ha))
  have hmem' : ∀ a, a ≠ target → (a ∈ l ++ q :: l' ↔ a ∈ l ++ q :: target :: l') := by
    intro a ha
    simp [ha]
  have hnot : target ∉ l ++ q :: l' := by
    intro hm
    rcases List.mem_append.mp hm with hm | hm
    · exact hdisj target hm target (by simp) rfl
    · rcases List.mem_cons.mp hm with rfl | hm
      · exact hq List.mem_cons_self
      · exact ht hm
  have hplace : place target = some key := (hmem target).mp (by simp)
  have hplaceq : place q = some key := (hmem q).mp (by simp)
  rw [hheads, ← Function.update_eq_self key p.heads]
  refine hl.replace hchain ?_ ?_ ?_
  · intro a
    by_cases ha : a = target
    · rw [ha, Function.update_self]
      exact ⟨fun h => absurd h hnot, fun h => absurd h (by simp)⟩
    · rw [Function.update_of_ne ha, ← hmem a]
      exact hmem' a ha
  · intro a j hj
    by_cases ha : a = target
    · rw [ha, Function.update_self, hplace]
      exact ⟨fun h => absurd h (by simp), fun h => absurd (Option.some.inj h).symm hj⟩
    · rw [Function.update_of_ne ha]
  · intro a j hj ha
    refine hother a ?_
    rintro rfl
    rw [hplaceq] at ha
    exact hj (Option.some.inj ha).symm

/-- **The neighbour comes off its list**, if it was on one. -/
theorem unlinkFree_lists {rounds : Nat} {found : Bool} (hl : Lists 0 p.links p.heads place)
    (hkey : ∀ {key}, place target = some key → (p.spans target).numPages = key) (h₀ : target ≠ 0)
    (h : p.unlinkFree target rounds = some (p', found)) :
    Lists 0 p'.links p'.heads (Function.update place target none) ∧ SameRecords p p' ∧
      (found = true ↔ place target ≠ none) ∧ (SortedKeys p.freeSpans → SortedKeys p'.freeSpans) := by
  obtain ⟨l, hc, hmem⟩ := hl (p.spans target).numPages
  have hon : place target ≠ none ↔ target ∈ l := by
    rw [hmem target]
    constructor
    · intro hne
      obtain ⟨key, hk⟩ := Option.ne_none_iff_exists'.mp hne
      rw [hk, hkey hk]
    · intro hk hn
      rw [hn] at hk
      exact absurd hk (by simp)
  have hoff : target ∉ l → Function.update place target none = place := by
    intro hnot
    have hnone : place target = none := not_not.mp fun hne => hnot (hon.mp hne)
    rw [← hnone, Function.update_eq_self]
  unfold unlinkFree at h
  dsimp only at h
  split at h
  · next hhead =>
    have hhead : p.heads (p.spans target).numPages = target := hhead
    simp only [Option.some.injEq, Prod.mk.injEq] at h
    obtain ⟨rfl, rfl⟩ := h
    have hne : p.heads (p.spans target).numPages ≠ 0 := by
      rw [hhead]
      exact h₀
    have hpop := hl.pop hne fun _ _ _ _ => rfl
    rw [hhead] at hpop
    refine ⟨?_, ⟨fun _ => rfl, fun _ => rfl, rfl, rfl⟩, ?_, fun hs => (hs.mapSet ..).mapSet ..⟩
    · show Lists 0 p.links (mapGet (mapSet (p.probe (p.spans target).numPages).freeSpans _ _)) _
      rw [mapGet_mapSet, show mapGet (p.probe (p.spans target).numPages).freeSpans = p.heads from
        heads_probe ..]
      exact hpop
    · rw [hon]
      obtain ⟨l', rfl, -⟩ := hc.uncons hne
      rw [hhead]
      simp
  · next hhead =>
    split at h
    · next hne =>
      obtain ⟨rest, rfl, hrest⟩ := hc.uncons hne
      have hprobe := heads_probe p (p.spans target).numPages
      have hnh : target ≠ mapGet p.freeSpans (p.spans target).numPages := Ne.symm hhead
      have hc' : Chain 0 (p.probe (p.spans target).numPages).links
          (mapGet p.freeSpans (p.spans target).numPages)
          (mapGet p.freeSpans (p.spans target).numPages :: rest) := ⟨rfl, hne, hrest⟩
      rcases unlinkBehind_spec hc' h with ⟨rfl, rfl, hnot⟩ | ⟨rfl, l₁, q, l₂, hsplit, rfl⟩
      · have hnl : target ∉ p.heads (p.spans target).numPages :: rest := by
          intro hm
          rcases List.mem_cons.mp hm with hm | hm
          · exact hnh hm
          · exact hnot hm
        refine ⟨?_, ⟨fun _ => rfl, fun _ => rfl, rfl, rfl⟩, ?_, fun hs => hs.mapSet ..⟩
        · rw [hoff hnl]
          show Lists 0 p.links (p.probe (p.spans target).numPages).heads place
          rw [hprobe]
          exact hl
        · rw [hon]
          simp [hnl]
      · have hfull : Chain 0 p.links (p.heads (p.spans target).numPages) (l₁ ++ q :: target :: l₂) := by
          rw [← hsplit]
          exact hc
        have hsame := setNext_same (p.probe (p.spans target).numPages) q (p.spans target).next
        refine ⟨lists_cut hl hfull (links_setSpan ..) hprobe, ⟨hsame.addr, hsame.pages, rfl, rfl⟩, ?_,
          fun hs => hs.mapSet ..⟩
        · rw [hon]
          have hin : target ∈ mapGet p.freeSpans (p.spans target).numPages :: rest := by
            rw [hsplit]
            simp
          exact ⟨fun _ => hin, fun _ => rfl⟩
    · next hnull =>
      have hnull : p.heads (p.spans target).numPages = 0 := not_not.mp hnull
      simp only [Option.some.injEq, Prod.mk.injEq] at h
      obtain ⟨rfl, rfl⟩ := h
      rw [hnull] at hc
      obtain rfl : l = [] := hc.unique (show Chain 0 p.links 0 [] from rfl)
      refine ⟨?_, ⟨fun _ => rfl, fun _ => rfl, rfl, rfl⟩, ?_, fun hs => hs.mapSet ..⟩
      · rw [hoff (by simp)]
        show Lists 0 p.links (p.probe (p.spans target).numPages).heads place
        rw [heads_probe]
        exact hl
      · rw [hon]
        simp

/-- The walk ends. -/
theorem unlinkFree_isSome (hl : Lists 0 p.links p.heads place) :
    ∃ rounds, (p.unlinkFree target rounds).isSome := by
  obtain ⟨l, hc, -⟩ := hl (p.spans target).numPages
  unfold unlinkFree
  dsimp only
  split
  · exact ⟨0, rfl⟩
  · split
    · next hne =>
      obtain ⟨rest, rfl, hrest⟩ := hc.uncons hne
      exact ⟨rest.length, unlinkBehind_isSome ⟨rfl, hne, hrest⟩⟩
    · exact ⟨0, rfl⟩

end

/-! ## 3. `deallocateSpan`, in three steps -/

/-- The end of `deallocateSpan`: the span goes in front of the list of its size. -/
def putSpan (p : PageCache) (span : Nat) : PageCache :=
  { p.setSpan span { p.spans span with next := mapGet p.freeSpans (p.spans span).numPages } with
    freeSpans := mapSet p.freeSpans (p.spans span).numPages span }

theorem putSpan_same (p : PageCache) (span : Nat) : SameRecords p (p.putSpan span) := by
  obtain ⟨haddr, hpages, hnext, hmap⟩ :=
    p.setNext_same span (mapGet p.freeSpans (p.spans span).numPages)
  exact ⟨haddr, hpages, hnext, hmap⟩

/-- The merge before it. -/
def absorb (p : PageCache) (span nx nextAddr : Nat) : PageCache :=
  { p.setSpan span { p.spans span with numPages := (p.spans span).numPages + (p.spans nx).numPages } with
    spanMap := Function.update p.spanMap nextAddr none }

@[simp] theorem absorb_self (p : PageCache) (span nx nextAddr : Nat) :
    (p.absorb span nx nextAddr).spans span =
      { p.spans span with numPages := (p.spans span).numPages + (p.spans nx).numPages } :=
  Function.update_self ..

theorem deallocateSpan_cases {p p' : PageCache} {ptr numPages rounds span : Nat}
    (hspan : p.spanMap ptr = some span) (h : p.deallocateSpan ptr numPages rounds = some p') :
    (p.spanMap (ptr + numPages * PAGE_SIZE) = none ∧ p' = p.putSpan span) ∨
    ∃ nx p₁ found, p.spanMap (ptr + numPages * PAGE_SIZE) = some nx ∧
      p.unlinkFree nx rounds = some (p₁, found) ∧
      p' = (if found then p₁.absorb span nx (ptr + numPages * PAGE_SIZE) else p₁).putSpan span := by
  unfold deallocateSpan at h
  rw [hspan] at h
  dsimp only at h
  cases hent : p.spanMap (ptr + numPages * PAGE_SIZE) with
  | none =>
    rw [hent] at h
    exact Or.inl ⟨rfl, (Option.some.inj h).symm⟩
  | some nx =>
    rw [hent] at h
    dsimp only at h
    cases hun : p.unlinkFree nx rounds with
    | none => rw [hun] at h; exact absurd h (by simp)
    | some q =>
      obtain ⟨p₁, found⟩ := q
      rw [hun] at h
      refine Or.inr ⟨nx, p₁, found, rfl, hun, ?_⟩
      cases found with
      | false => exact (Option.some.inj h).symm
      | true => exact (Option.some.inj h).symm

end PageCache

/-! ## 4. The calls -/

namespace PageCalls

theorem step_allocateSpan {s s' : State} {numPages : Nat} {answer : Option Nat} {es : List Event}
    (h : step s (.allocateSpan numPages answer) = some (s', es)) :
    0 < numPages ∧ ∃ p m a, s.pages.allocateSpan s.mem numPages answer = some (p, m, a) ∧
      s' = { pages := p, mem := m, live := if a = 0 then s.live else (a, numPages) :: s.live } := by
  simp only [step] at h
  split at h
  · exact absurd h (by simp)
  · next hpos =>
    split at h
    · exact absurd h (by simp)
    · next p m a halloc =>
      simp only [Option.some.injEq, Prod.mk.injEq] at h
      exact ⟨Nat.pos_of_ne_zero hpos, p, m, a, halloc, h.1.symm⟩

theorem step_deallocateSpan {s s' : State} {ptr numPages rounds : Nat} {es : List Event}
    (h : step s (.deallocateSpan ptr numPages rounds) = some (s', es)) :
    (ptr, numPages) ∈ s.live ∧ ∃ p, s.pages.deallocateSpan ptr numPages rounds = some p ∧
      s' = { s with pages := p, live := s.live.erase (ptr, numPages) } := by
  simp only [step] at h
  split at h
  · next hlive =>
    split at h
    · exact absurd h (by simp)
    · next p hdealloc =>
      simp only [Option.some.injEq, Prod.mk.injEq] at h
      exact ⟨List.contains_iff_mem.mp hlive, p, hdealloc, h.1.symm⟩
  · exact absurd h (by simp)

end PageCalls

end Pool
end EpollChat
