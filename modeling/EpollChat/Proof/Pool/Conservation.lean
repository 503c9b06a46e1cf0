import EpollChat.Lib.Tiling
import EpollChat.Proof.Pool.FreeSpans
import EpollChat.Proof.Pool.Safety

/-!
# No page is lost

Every `Span` record that counts is with a caller or in a bucket; `w` says which. The records
that count tile the memory `mmap` has given out: `allocateSpan` lays a new piece or splits one,
`deallocateSpan` joins two. `spanMap_` keeps entries for free spans, but none for a record that
no longer counts: a record stops counting only when it is merged into the one before it, and
then its entry goes with it. That is what makes the merge safe.

`systemAlloc` computes the size for `mmap` as a `size_t`. From 2^52 pages on it wraps, and the
span is longer than what was mapped for it.
-/

namespace EpollChat
namespace Pool
namespace PageCalls

open Lib Machine

/-! ## 1. The property -/

/-- The span is reachable from the bucket. -/
def FreeUnder (p : PageCache) (key r : Nat) : Prop :=
  ∃ head, (key, head) ∈ p.freeSpans ∧ OnList 0 p.links head r

def spanBytes (p : PageCache) (r : Nat) : Range :=
  ⟨(p.spans r).pageAddr, (p.spans r).numPages * PAGE_SIZE⟩

def liveBytes (e : Nat × Nat) : Range := ⟨e.1, e.2 * PAGE_SIZE⟩

def Range.Has (r : Range) (x : Nat) : Prop := r.start ≤ x ∧ x < r.start + r.bytes

/-- The live spans and the free ones are disjoint, and together they are what `mmap` has given
    out; each is where the two maps say. -/
structure Conserved (s : State) : Prop where
  live_live : s.live.Pairwise fun e e' => (liveBytes e).Apart (liveBytes e')
  live_free : ∀ e ∈ s.live, ∀ key r, FreeUnder s.pages key r → (liveBytes e).Apart (spanBytes s.pages r)
  free_free : ∀ key r key' r', FreeUnder s.pages key r → FreeUnder s.pages key' r' → r ≠ r' →
    (spanBytes s.pages r).Apart (spanBytes s.pages r')
  union : ∀ x, (∃ region ∈ s.mem.regions, Range.Has region x) ↔
    (∃ e ∈ s.live, Range.Has (liveBytes e) x) ∨
      ∃ key r, FreeUnder s.pages key r ∧ Range.Has (spanBytes s.pages r) x
  keys : ∀ key r, FreeUnder s.pages key r → (s.pages.spans r).numPages = key
  entries : ∀ e ∈ s.live, ∃ r, s.pages.spanMap e.1 = some r ∧ (s.pages.spans r).pageAddr = e.1 ∧
    (s.pages.spans r).numPages = e.2

/-! ## 2. The invariant -/

inductive Holder where
  | caller
  | bucket (key : Nat)
deriving DecidableEq, Repr

def bucketOf : Option Holder → Option Nat
  | some (.bucket key) => some key
  | _ => none

theorem bucketOf_eq_some {o : Option Holder} {key : Nat} :
    bucketOf o = some key ↔ o = some (.bucket key) := by
  cases o with
  | none => simp [bucketOf]
  | some x => cases x <;> simp [bucketOf]

theorem bucketOf_update (w : Nat → Option Holder) (r : Nat) (v : Option Holder) :
    (fun r' => bucketOf (Function.update w r v r')) =
      Function.update (fun r' => bucketOf (w r')) r (bucketOf v) := by
  funext r'
  by_cases hr : r' = r
  · rw [hr, Function.update_self, Function.update_self]
  · rw [Function.update_of_ne hr, Function.update_of_ne hr]

theorem update_eq_some {w : Nat → Option Holder} {r r' : Nat} {v : Option Holder} {h : Holder} :
    Function.update w r v r' = some h ↔ (r' = r ∧ v = some h) ∨ (r' ≠ r ∧ w r' = some h) := by
  by_cases hr : r' = r
  · rw [hr, Function.update_self]
    simp
  · rw [Function.update_of_ne hr]
    simp [hr]

def pieces (p : PageCache) (w : Nat → Option Holder) (r : Nat) : Option (Nat × Nat) :=
  (w r).map fun _ => ((p.spans r).pageAddr, (p.spans r).numPages * PAGE_SIZE)

theorem pieces_eq_some {p : PageCache} {w : Nat → Option Holder} {r : Nat} (h : w r ≠ none) :
    pieces p w r = some ((p.spans r).pageAddr, (p.spans r).numPages * PAGE_SIZE) := by
  obtain ⟨x, hx⟩ := Option.ne_none_iff_exists'.mp h
  rw [pieces, hx]
  rfl

theorem of_pieces {p : PageCache} {w : Nat → Option Holder} {r a n : Nat} (h : pieces p w r = some (a, n)) :
    w r ≠ none ∧ a = (p.spans r).pageAddr ∧ n = (p.spans r).numPages * PAGE_SIZE := by
  obtain ⟨x, hx, he⟩ := Option.map_eq_some_iff.mp h
  obtain ⟨rfl, rfl⟩ := Prod.mk.inj he
  exact ⟨by rw [hx]; simp, rfl, rfl⟩

def mappedBytes (m : Memory) : Set Nat := {x | ∃ region ∈ m.regions, Range.Has region x}

structure Ok (s : State) (w : Nat → Option Holder) : Prop where
  sorted : SortedKeys s.pages.freeSpans
  lists : Lists 0 s.pages.links s.pages.heads fun r => bucketOf (w r)
  key : ∀ {r key}, w r = some (.bucket key) → (s.pages.spans r).numPages = key
  live : ∀ {a n}, (a, n) ∈ s.live ↔
    ∃ r, w r = some .caller ∧ (s.pages.spans r).pageAddr = a ∧ (s.pages.spans r).numPages = n
  nodup : s.live.Nodup
  mapped : ∀ {r}, w r = some .caller → s.pages.spanMap (s.pages.spans r).pageAddr = some r
  entry : ∀ {a r}, s.pages.spanMap a = some r → w r ≠ none ∧ (s.pages.spans r).pageAddr = a
  below : ∀ {r}, w r ≠ none → 0 < r ∧ r < s.pages.nextSpan
  next : 0 < s.pages.nextSpan
  regions : ∀ region ∈ s.mem.regions, 0 < region.start
  tiles : Tiles (pieces s.pages w) (mappedBytes s.mem)

section

variable {s : State} {w : Nat → Option Holder}

/-- No span starts at the null pointer. -/
theorem Ok.addr_ne_zero (hi : Ok s w) {r : Nat} (h : w r ≠ none) : (s.pages.spans r).pageAddr ≠ 0 := by
  have hp := pieces_eq_some (p := s.pages) h
  have := hi.tiles.pos hp
  obtain ⟨region, hreg, hle, -⟩ := (hi.tiles.union (s.pages.spans r).pageAddr).mpr
    ⟨r, _, _, hp, Nat.le_refl _, by omega⟩
  have := hi.regions region hreg
  omega

/-- Two records that count start at different addresses. -/
theorem Ok.addr_inj (hi : Ok s w) {r r' : Nat} (h : w r ≠ none) (h' : w r' ≠ none)
    (haddr : (s.pages.spans r).pageAddr = (s.pages.spans r').pageAddr) : r = r' := by
  have h₁ := hi.tiles.pos (pieces_eq_some h)
  have h₂ := hi.tiles.pos (pieces_eq_some h')
  refine hi.tiles.unique (pieces_eq_some h) (pieces_eq_some h') (x := (s.pages.spans r).pageAddr)
    ⟨Nat.le_refl _, by omega⟩ ⟨by omega, by omega⟩

/-- A bucket holds the records `w` puts into it. -/
theorem Ok.freeUnder_iff (hi : Ok s w) {key r : Nat} :
    FreeUnder s.pages key r ↔ w r = some (.bucket key) := by
  have hon := hi.lists.onList_iff (k := key) (a := r)
  rw [bucketOf_eq_some] at hon
  rw [← hon]
  constructor
  · rintro ⟨head, hmem, hl⟩
    rw [show s.pages.heads key = head from hi.sorted.mapGet_of_mem hmem]
    exact hl
  · intro hl
    have hne : s.pages.heads key ≠ 0 := by
      cases hl with
      | head h => exact h
      | next h _ => exact h
    exact ⟨_, mem_of_mapGet hne, hl⟩

theorem Ok.conserved (hi : Ok s w) : Conserved s := by
  have hrec : ∀ {e}, e ∈ s.live → ∃ r, w r = some .caller ∧ (s.pages.spans r).pageAddr = e.1 ∧
      (s.pages.spans r).numPages = e.2 := fun {e} he => hi.live.mp (show (e.1, e.2) ∈ s.live from he)
  have hbytes : ∀ {e r}, (s.pages.spans r).pageAddr = e.1 → (s.pages.spans r).numPages = e.2 →
      liveBytes e = spanBytes s.pages r := by
    intro e r h₁ h₂
    unfold liveBytes spanBytes
    rw [h₁, h₂]
  have hapart : ∀ {r r'}, w r ≠ none → w r' ≠ none → r ≠ r' →
      (spanBytes s.pages r).Apart (spanBytes s.pages r') :=
    fun h h' hne => hi.tiles.apart (pieces_eq_some h) (pieces_eq_some h') hne
  refine ⟨?_, ?_, ?_, ?_, ?_, ?_⟩
  · refine hi.nodup.imp_of_mem fun {e e'} he he' hne => ?_
    obtain ⟨r, hr, h₁, h₂⟩ := hrec he
    obtain ⟨r', hr', h₁', h₂'⟩ := hrec he'
    rw [hbytes h₁ h₂, hbytes h₁' h₂']
    refine hapart (by simp [hr]) (by simp [hr']) ?_
    rintro rfl
    exact hne (Prod.ext (h₁.symm.trans h₁') (h₂.symm.trans h₂'))
  · intro e he key r hfree
    obtain ⟨r', hr', h₁, h₂⟩ := hrec he
    have hr := hi.freeUnder_iff.mp hfree
    rw [hbytes h₁ h₂]
    refine hapart (by simp [hr']) (by simp [hr]) ?_
    rintro rfl
    rw [hr] at hr'
    exact absurd hr' (by simp)
  · intro key r key' r' hfree hfree' hne
    exact hapart (by simp [hi.freeUnder_iff.mp hfree]) (by simp [hi.freeUnder_iff.mp hfree']) hne
  · intro x
    refine (hi.tiles.union x).trans ⟨?_, ?_⟩
    · rintro ⟨r, a, n, hp, hx⟩
      obtain ⟨hr, rfl, rfl⟩ := of_pieces hp
      obtain ⟨h, hh⟩ := Option.ne_none_iff_exists'.mp hr
      cases h with
      | caller => exact Or.inl ⟨_, hi.live.mpr ⟨r, hh, rfl, rfl⟩, hx⟩
      | bucket key => exact Or.inr ⟨key, r, hi.freeUnder_iff.mpr hh, hx⟩
    · rintro (⟨e, he, hx⟩ | ⟨key, r, hfree, hx⟩)
      · obtain ⟨r, hr, h₁, h₂⟩ := hrec he
        rw [hbytes h₁ h₂] at hx
        exact ⟨r, _, _, pieces_eq_some (by simp [hr]), hx⟩
      · exact ⟨r, _, _, pieces_eq_some (by simp [hi.freeUnder_iff.mp hfree]), hx⟩
  · exact fun key r hfree => hi.key (hi.freeUnder_iff.mp hfree)
  · intro e he
    obtain ⟨r, hr, h₁, h₂⟩ := hrec he
    exact ⟨r, by rw [← h₁]; exact hi.mapped hr, h₁, h₂⟩

/-! ## 3. `allocateSpan` -/

theorem update_ne_none {v : Holder} {r r' : Nat} :
    Function.update w r (some v) r' ≠ none ↔ r' = r ∨ w r' ≠ none := by
  by_cases hr : r' = r
  · rw [hr, Function.update_self]
    simp
  · rw [Function.update_of_ne hr]
    simp [hr]

/-- The next record does not count yet. -/
theorem Ok.next_none (hi : Ok s w) : w s.pages.nextSpan = none := by
  by_contra h
  exact Nat.lt_irrefl _ (hi.below h).2

/-- A caller's span, under its address, is not in `live` yet if its record was not a caller's. -/
theorem Ok.not_live (hi : Ok s w) {r n : Nat} (h : w r ≠ none) (hc : w r ≠ some .caller) :
    ((s.pages.spans r).pageAddr, n) ∉ s.live := by
  intro hm
  obtain ⟨r', hr', haddr, -⟩ := hi.live.mp hm
  obtain rfl := hi.addr_inj (by simp [hr']) h haddr
  exact hc hr'

/-- A span from `mmap`. -/
theorem Ok.mmap (hi : Ok s w) {numPages a : Nat} {word : Nat → Nat} (hpos : 0 < numPages)
    (hfresh : s.mem.Fresh ⟨a, numPages * PAGE_SIZE⟩) :
    Ok { pages := { s.pages with
            spans := Function.update s.pages.spans s.pages.nextSpan { pageAddr := a, numPages := numPages }
            nextSpan := s.pages.nextSpan + 1
            spanMap := Function.update s.pages.spanMap a (some s.pages.nextSpan) }
         mem := { word := word, regions := ⟨a, numPages * PAGE_SIZE⟩ :: s.mem.regions }
         live := (a, numPages) :: s.live }
      (Function.update w s.pages.nextSpan (some .caller)) := by
  have hnone := hi.next_none
  have hold : ∀ {r}, w r ≠ none → r ≠ s.pages.nextSpan := by
    rintro r hr rfl
    exact hr hnone
  have hspan : ∀ {r}, r ≠ s.pages.nextSpan → Function.update s.pages.spans s.pages.nextSpan
      { pageAddr := a, numPages := numPages } r = s.pages.spans r := fun hr => Function.update_of_ne hr ..
  -- the new bytes were in no region, so in no span
  have hout : ∀ x, a ≤ x → x < a + numPages * PAGE_SIZE → x ∉ mappedBytes s.mem := by
    rintro x h₁ h₂ ⟨region, hreg, h₃, h₄⟩
    have hap : a + numPages * PAGE_SIZE ≤ region.start ∨ region.start + region.bytes ≤ a :=
      hfresh.2.2 region hreg
    omega
  have hbytes : 0 < numPages * PAGE_SIZE := Nat.mul_pos hpos (by simp [PAGE_SIZE])
  have haddr : ∀ {r}, w r ≠ none → (s.pages.spans r).pageAddr ≠ a := by
    rintro r hr heq
    have hr' := pieces_eq_some (p := s.pages) hr
    have := hi.tiles.pos hr'
    exact hout a (Nat.le_refl _) (by omega) ((hi.tiles.union a).mpr ⟨r, _, _, hr', by omega, by omega⟩)
  refine ⟨hi.sorted, ?_, ?_, ?_, ?_, ?_, ?_, ?_, Nat.succ_pos _, ?_, ?_⟩
  · have hplace : (fun r => bucketOf (Function.update w s.pages.nextSpan (some .caller) r)) =
        fun r => bucketOf (w r) := by
      funext r
      by_cases hr : r = s.pages.nextSpan
      · rw [hr, Function.update_self, hnone]
        rfl
      · rw [Function.update_of_ne hr]
    rw [hplace]
    refine hi.lists.frame fun r key hr => ?_
    have hr : w r ≠ none := by rw [bucketOf_eq_some.mp hr]; simp
    exact congrArg Span.next (hspan (hold hr))
  · intro r key hr
    by_cases hrn : r = s.pages.nextSpan
    · rw [hrn, Function.update_self] at hr
      exact absurd hr (by simp)
    · rw [Function.update_of_ne hrn] at hr
      exact (congrArg Span.numPages (hspan hrn)).trans (hi.key hr)
  · intro b n
    rw [List.mem_cons, hi.live]
    constructor
    · rintro (he | ⟨r, hr, h₁, h₂⟩)
      · obtain ⟨rfl, rfl⟩ := Prod.mk.inj he
        refine ⟨s.pages.nextSpan, Function.update_self .., ?_, ?_⟩
        · dsimp only
          rw [Function.update_self]
        · dsimp only
          rw [Function.update_self]
      · have hrn := hold (r := r) (by rw [hr]; simp)
        refine ⟨r, (Function.update_of_ne hrn ..).trans hr, ?_, ?_⟩
        · exact (congrArg Span.pageAddr (hspan hrn)).trans h₁
        · exact (congrArg Span.numPages (hspan hrn)).trans h₂
    · rintro ⟨r, hr, h₁, h₂⟩
      by_cases hrn : r = s.pages.nextSpan
      · left
        dsimp only at h₁ h₂
        rw [hrn, Function.update_self] at h₁ h₂
        exact Prod.ext h₁.symm h₂.symm
      · right
        dsimp only at h₁ h₂
        rw [hspan hrn] at h₁ h₂
        rw [Function.update_of_ne hrn] at hr
        exact ⟨r, hr, h₁, h₂⟩
  · refine List.nodup_cons.mpr ⟨fun hm => ?_, hi.nodup⟩
    obtain ⟨r, hr, h₁, -⟩ := hi.live.mp hm
    exact haddr (by rw [hr]; simp) h₁
  · intro r hr
    by_cases hrn : r = s.pages.nextSpan
    · rw [hrn]
      dsimp only
      rw [Function.update_self, Function.update_self]
    · rw [Function.update_of_ne hrn] at hr
      dsimp only
      rw [hspan hrn, Function.update_of_ne (haddr (by rw [hr]; simp))]
      exact hi.mapped hr
  · intro b r hb
    dsimp only at hb ⊢
    by_cases hba : b = a
    · rw [hba, Function.update_self, Option.some.injEq] at hb
      rw [← hb, Function.update_self, Function.update_self, hba]
      exact ⟨by simp, rfl⟩
    · rw [Function.update_of_ne hba] at hb
      obtain ⟨hr, h₁⟩ := hi.entry hb
      rw [Function.update_of_ne (hold hr), hspan (hold hr)]
      exact ⟨hr, h₁⟩
  · intro r hr
    dsimp only
    rcases update_ne_none.mp hr with rfl | hr
    · exact ⟨hi.next, Nat.lt_succ_self _⟩
    · exact ⟨(hi.below hr).1, Nat.lt_succ_of_lt (hi.below hr).2⟩
  · intro region hreg
    rcases List.mem_cons.mp hreg with rfl | hreg
    · exact hfresh.1
    · exact hi.regions region hreg
  · have htiles := hi.tiles.add (i := s.pages.nextSpan) (by rw [pieces, hnone]; rfl) hbytes hout
    have hp : pieces { s.pages with
        spans := Function.update s.pages.spans s.pages.nextSpan { pageAddr := a, numPages := numPages }
        nextSpan := s.pages.nextSpan + 1
        spanMap := Function.update s.pages.spanMap a (some s.pages.nextSpan) }
        (Function.update w s.pages.nextSpan (some .caller)) =
        Function.update (pieces s.pages w) s.pages.nextSpan (some (a, numPages * PAGE_SIZE)) := by
      funext r
      by_cases hr : r = s.pages.nextSpan
      · rw [hr, Function.update_self, pieces, Function.update_self]
        dsimp only
        rw [Function.update_self]
        rfl
      · rw [Function.update_of_ne hr, pieces, Function.update_of_ne hr]
        dsimp only
        rw [hspan hr]
        rfl
    have hs : mappedBytes { word := word, regions := ⟨a, numPages * PAGE_SIZE⟩ :: s.mem.regions } =
        mappedBytes s.mem ∪ {x | a ≤ x ∧ x < a + numPages * PAGE_SIZE} := by
      ext x
      simp [mappedBytes, Range.Has, or_comm]
    rw [hp, hs]
    exact htiles

/-- The first span of a bucket goes to a caller. -/
theorem Ok.pop (hi : Ok s w) {key r : Nat} {free : List (Nat × Nat)} (hr : s.pages.heads key = r)
    (h₀ : r ≠ 0) (hfree : mapGet free = Function.update s.pages.heads key (s.pages.links r))
    (hsorted : SortedKeys free) :
    Ok { s with
        pages := { s.pages with
          freeSpans := free
          spanMap := Function.update s.pages.spanMap (s.pages.spans r).pageAddr (some r) }
        live := ((s.pages.spans r).pageAddr, key) :: s.live }
      (Function.update w r (some .caller)) := by
  subst hr
  have hplace := hi.lists.place_head h₀
  have hbucket : w (s.pages.heads key) = some (.bucket key) := bucketOf_eq_some.mp hplace
  have hw : w (s.pages.heads key) ≠ none := by rw [hbucket]; simp
  have hother : ∀ {r'}, w r' = some .caller → r' ≠ s.pages.heads key := by
    rintro r' h rfl
    rw [hbucket] at h
    exact absurd h (by simp)
  refine ⟨hsorted, ?_, ?_, ?_, List.nodup_cons.mpr ⟨hi.not_live hw (by rw [hbucket]; simp), hi.nodup⟩,
    ?_, ?_, ?_, hi.next, hi.regions, ?_⟩
  · have hpop := hi.lists.pop h₀ fun _ _ _ _ => rfl
    rw [bucketOf_update]
    show Lists 0 s.pages.links (mapGet free) _
    rw [hfree]
    exact hpop
  · intro r' key' h
    by_cases hr' : r' = s.pages.heads key
    · rw [hr', Function.update_self] at h
      exact absurd h (by simp)
    · rw [Function.update_of_ne hr'] at h
      exact hi.key h
  · intro b n
    rw [List.mem_cons, hi.live]
    constructor
    · rintro (he | ⟨r', h, h₁, h₂⟩)
      · obtain ⟨rfl, rfl⟩ := Prod.mk.inj he
        exact ⟨_, Function.update_self .., rfl, hi.key hbucket⟩
      · exact ⟨r', (Function.update_of_ne (hother h) ..).trans h, h₁, h₂⟩
    · rintro ⟨r', h, h₁, h₂⟩
      by_cases hr' : r' = s.pages.heads key
      · rw [hr'] at h₁ h₂
        exact Or.inl (Prod.ext h₁.symm (h₂.symm.trans (hi.key hbucket)))
      · rw [Function.update_of_ne hr'] at h
        exact Or.inr ⟨r', h, h₁, h₂⟩
  · intro r' h
    by_cases hr' : r' = s.pages.heads key
    · rw [hr']
      exact Function.update_self ..
    · rw [Function.update_of_ne hr'] at h
      refine (Function.update_of_ne (fun heq => hr' ?_) ..).trans (hi.mapped h)
      exact hi.addr_inj (by rw [h]; simp) hw heq
  · intro b r' hb
    dsimp only at hb ⊢
    rw [update_ne_none]
    by_cases hba : b = (s.pages.spans (s.pages.heads key)).pageAddr
    · rw [hba, Function.update_self, Option.some.injEq] at hb
      rw [← hb, hba]
      exact ⟨Or.inl rfl, rfl⟩
    · rw [Function.update_of_ne hba] at hb
      exact ⟨Or.inr (hi.entry hb).1, (hi.entry hb).2⟩
  · intro r' h
    rcases update_ne_none.mp h with rfl | h
    · exact hi.below hw
    · exact hi.below h
  · have hp : pieces s.pages (Function.update w (s.pages.heads key) (some .caller)) = pieces s.pages w := by
      funext r'
      by_cases hr' : r' = s.pages.heads key
      · rw [hr', pieces_eq_some hw, pieces_eq_some (by rw [Function.update_self]; simp)]
      · unfold pieces
        rw [Function.update_of_ne hr']
    have htiles := hi.tiles
    rw [← hp] at htiles
    exact htiles

/-- A caller's span is cut, and what it did not ask for goes into a bucket. -/
theorem Ok.split (hi : Ok s w) {r n m : Nat} {live : List (Nat × Nat)} (hr : w r = some .caller)
    (hn : 0 < n) (hm : 0 < m) (hpages : (s.pages.spans r).numPages = n + m)
    (hlive : s.live = ((s.pages.spans r).pageAddr, n + m) :: live) :
    Ok { s with
        pages :=
          (({ s.pages with
              freeSpans := mapSet s.pages.freeSpans m s.pages.nextSpan
              nextSpan := s.pages.nextSpan + 1 }.setSpan s.pages.nextSpan
                { pageAddr := (s.pages.spans r).pageAddr + n * PAGE_SIZE, numPages := m
                  next := mapGet s.pages.freeSpans m }).setSpan r { s.pages.spans r with numPages := n })
        live := ((s.pages.spans r).pageAddr, n) :: live }
      (Function.update w s.pages.nextSpan (some (.bucket m))) := by
  have hnone := hi.next_none
  have hrq : r ≠ s.pages.nextSpan := by
    rintro rfl
    rw [hr] at hnone
    exact absurd hnone (by simp)
  obtain ⟨spans, hspans⟩ : ∃ spans, spans = Function.update (Function.update s.pages.spans s.pages.nextSpan
      { pageAddr := (s.pages.spans r).pageAddr + n * PAGE_SIZE, numPages := m
        next := mapGet s.pages.freeSpans m }) r { s.pages.spans r with numPages := n } := ⟨_, rfl⟩
  have hsr : spans r = { s.pages.spans r with numPages := n } := by rw [hspans, Function.update_self]
  have hsq : spans s.pages.nextSpan = { pageAddr := (s.pages.spans r).pageAddr + n * PAGE_SIZE
                                        numPages := m
                                        next := mapGet s.pages.freeSpans m } := by
    rw [hspans, Function.update_of_ne (Ne.symm hrq), Function.update_self]
  have hso : ∀ {r'}, r' ≠ r → r' ≠ s.pages.nextSpan → spans r' = s.pages.spans r' := by
    intro r' h₁ h₂
    rw [hspans, Function.update_of_ne h₁, Function.update_of_ne h₂]
  have hcount : ∀ {r'}, w r' ≠ none → r' ≠ s.pages.nextSpan := by
    rintro r' h rfl
    exact h hnone
  -- only the page count of `r` has changed
  have haddr : ∀ {r'}, w r' ≠ none → (spans r').pageAddr = (s.pages.spans r').pageAddr := by
    intro r' h
    by_cases hr' : r' = r
    · rw [hr', hsr]
    · rw [hso hr' (hcount h)]
  have hlink : ∀ {r'}, w r' ≠ none → (spans r').next = (s.pages.spans r').next := by
    intro r' h
    by_cases hr' : r' = r
    · rw [hr', hsr]
    · rw [hso hr' (hcount h)]
  suffices hok : Ok { s with
      pages := { spans := spans
                 nextSpan := s.pages.nextSpan + 1
                 freeSpans := mapSet s.pages.freeSpans m s.pages.nextSpan
                 spanMap := s.pages.spanMap }
      live := ((s.pages.spans r).pageAddr, n) :: live } (Function.update w s.pages.nextSpan (some (.bucket m))) by
    rw [hspans] at hok
    exact hok
  refine ⟨hi.sorted.mapSet .., ?_, ?_, ?_, ?_, ?_, ?_, ?_, Nat.succ_pos _, hi.regions, ?_⟩
  · have hpush : Lists 0 (fun r' => (spans r').next) _ _ := hi.lists.push (k := m) (a := s.pages.nextSpan)
      (Nat.pos_iff_ne_zero.mp hi.next) (by rw [hnone]; rfl) (by rw [hsq]; rfl) (fun r' k h => by
        refine hlink ?_
        rw [bucketOf_eq_some.mp h]
        simp)
    rw [bucketOf_update]
    show Lists 0 _ (mapGet (mapSet s.pages.freeSpans m s.pages.nextSpan)) _
    rw [mapGet_mapSet]
    exact hpush
  · intro r' key h
    dsimp only
    by_cases hr' : r' = s.pages.nextSpan
    · rw [hr', Function.update_self] at h
      rw [hr', hsq]
      exact Holder.bucket.inj (Option.some.inj h)
    · rw [Function.update_of_ne hr'] at h
      rw [hso (fun heq => by rw [heq, hr] at h; exact absurd h (by simp)) hr']
      exact hi.key h
  · intro b k
    dsimp only
    have hold := hi.live (a := b) (n := k)
    rw [hlive, List.mem_cons] at hold
    rw [List.mem_cons]
    have hnd := hi.nodup
    rw [hlive, List.nodup_cons] at hnd
    constructor
    · rintro (he | hmem)
      · obtain ⟨rfl, rfl⟩ := Prod.mk.inj he
        refine ⟨r, (Function.update_of_ne hrq ..).trans hr, ?_, ?_⟩ <;> rw [hsr]
      · obtain ⟨r', h, h₁, h₂⟩ := hold.mp (Or.inr hmem)
        have hne : r' ≠ r := by
          rintro rfl
          rw [← h₁, ← h₂, hpages] at hmem
          exact hnd.1 hmem
        have hc := hcount (show w r' ≠ none by rw [h]; simp)
        refine ⟨r', (Function.update_of_ne hc ..).trans h, ?_, ?_⟩ <;> rw [hso hne hc]
        · exact h₁
        · exact h₂
    · rintro ⟨r', h, h₁, h₂⟩
      have hc : r' ≠ s.pages.nextSpan := by
        rintro rfl
        rw [Function.update_self] at h
        exact absurd h (by simp)
      rw [Function.update_of_ne hc] at h
      by_cases hne : r' = r
      · rw [hne, hsr] at h₁ h₂
        exact Or.inl (Prod.ext h₁.symm h₂.symm)
      · rw [hso hne hc] at h₁ h₂
        rcases hold.mpr ⟨r', h, h₁, h₂⟩ with he | hmem
        · exact absurd (hi.addr_inj (by rw [h]; simp) (by rw [hr]; simp) (h₁.trans (Prod.mk.inj he).1)) hne
        · exact Or.inr hmem
  · have hnd := hi.nodup
    rw [hlive, List.nodup_cons] at hnd
    refine List.nodup_cons.mpr ⟨fun hmem => ?_, hnd.2⟩
    obtain ⟨r', h, h₁, h₂⟩ := hi.live.mp (by rw [hlive]; exact List.mem_cons_of_mem _ hmem)
    obtain rfl := hi.addr_inj (by rw [h]; simp) (by rw [hr]; simp) h₁
    omega
  · intro r' h
    have hc : r' ≠ s.pages.nextSpan := by
      rintro rfl
      rw [Function.update_self] at h
      exact absurd h (by simp)
    rw [Function.update_of_ne hc] at h
    dsimp only
    rw [haddr (by rw [h]; simp)]
    exact hi.mapped h
  · intro b r' hb
    obtain ⟨h, h₁⟩ := hi.entry hb
    exact ⟨update_ne_none.mpr (Or.inr h), (haddr h).trans h₁⟩
  · intro r' h
    rcases update_ne_none.mp h with rfl | h
    · exact ⟨hi.next, Nat.lt_succ_self _⟩
    · exact ⟨(hi.below h).1, Nat.lt_succ_of_lt (hi.below h).2⟩
  · have hpr : pieces s.pages w r =
        some ((s.pages.spans r).pageAddr, n * PAGE_SIZE + m * PAGE_SIZE) := by
      rw [pieces_eq_some (by rw [hr]; simp), hpages, Nat.add_mul]
    have htiles := hi.tiles.split hpr (j := s.pages.nextSpan) (by rw [pieces, hnone]; rfl)
      (Nat.mul_pos hn (by simp [PAGE_SIZE])) (Nat.mul_pos hm (by simp [PAGE_SIZE]))
    refine Eq.subst (motive := fun f => Tiles f _) ?_ htiles
    funext r'
    unfold pieces
    dsimp only
    by_cases hq : r' = s.pages.nextSpan
    · rw [hq, Function.update_self, Function.update_self, hsq]
      rfl
    · rw [Function.update_of_ne hq, Function.update_of_ne hq]
      by_cases hr' : r' = r
      · rw [hr', Function.update_self, hsr, hr]
        rfl
      · rw [Function.update_of_ne hr', hso hr' hq]

/-- The bucket `lower_bound` finds. -/
theorem lowerBound_spec {p : PageCache} {numPages key span : Nat}
    (h : p.lowerBound numPages = some (key, span)) : numPages ≤ key ∧ p.heads key = span := by
  obtain ⟨hle, as, bs, hsplit, hfirst⟩ := List.find?_eq_some_iff_append.mp h
  have hle : numPages ≤ key := by simpa using hle
  refine ⟨hle, ?_⟩
  have hno : ∀ a ∈ as, (key == a.1) = false := by
    intro a ha
    have := hfirst a ha
    rw [beq_eq_false_iff_ne]
    intro heq
    rw [heq] at hle
    simp [hle] at this
  unfold PageCache.heads mapGet
  rw [hsplit, List.lookup_append, List.lookup_eq_none_iff.mpr (fun a ha => by simpa using hno a ha)]
  simp

/-- **A request is served from a bucket.** -/
theorem Ok.take (hi : Ok s w) {numPages key span a : Nat} {p : PageCache} (hpos : 0 < numPages)
    (hlb : s.pages.lowerBound numPages = some (key, span))
    (h : s.pages.takeSpan numPages key span = some (p, a)) :
    a ≠ 0 ∧ ∃ w', Ok { s with pages := p, live := (a, numPages) :: s.live } w' := by
  obtain ⟨hle, hhead⟩ := lowerBound_spec hlb
  unfold PageCache.takeSpan at h
  split at h
  · exact absurd h (by simp)
  · next h₀ =>
    obtain ⟨free, hfree⟩ : ∃ free, free = if (s.pages.spans span).next ≠ 0 then
        mapSet s.pages.freeSpans key (s.pages.spans span).next else mapErase s.pages.freeSpans key :=
      ⟨_, rfl⟩
    have hget : mapGet free = Function.update s.pages.heads key (s.pages.links span) := by
      rw [hfree]
      split
      · exact mapGet_mapSet ..
      · next hnull =>
        rw [mapGet_mapErase, show s.pages.links span = 0 from not_not.mp hnull]
        rfl
    have hsorted : SortedKeys free := by
      rw [hfree]
      split
      · exact hi.sorted.mapSet ..
      · exact hi.sorted.mapErase ..
    have hpop := hi.pop hhead h₀ hget hsorted
    have hbucket : w span = some (.bucket key) := by
      rw [← hhead]
      exact bucketOf_eq_some.mp (hi.lists.place_head (by rw [hhead]; exact h₀))
    have hkey := hi.key hbucket
    have haddr := hi.addr_ne_zero (r := span) (by rw [hbucket]; simp)
    dsimp only at h
    rw [← hfree] at h
    split at h
    · next hlt =>
      obtain ⟨m, hm⟩ : ∃ m, key = numPages + m := Nat.exists_eq_add_of_le hle
      have hrest : (s.pages.spans span).numPages - numPages = m := by omega
      have hsplit := hpop.split (r := span) (n := numPages) (m := m) (Function.update_self ..) hpos
        (by omega) (by rw [← hm]; exact hkey) (by rw [← hm])
      rw [hrest] at h
      obtain ⟨rfl, rfl⟩ := Prod.mk.inj (Option.some.inj h)
      exact ⟨haddr, _, hsplit⟩
    · next hnot =>
      have heq : numPages = key := by omega
      obtain ⟨rfl, rfl⟩ := Prod.mk.inj (Option.some.inj h)
      rw [heq]
      exact ⟨haddr, _, hpop⟩

/-! ## 4. `deallocateSpan` -/

/-- A caller's span goes into the bucket of its size. -/
theorem Ok.putBack (hi : Ok s w) {r : Nat} (hr : w r = some .caller) :
    Ok { s with
        pages := s.pages.putSpan r
        live := s.live.erase ((s.pages.spans r).pageAddr, (s.pages.spans r).numPages) }
      (Function.update w r (some (.bucket (s.pages.spans r).numPages))) := by
  have hw : w r ≠ none := by rw [hr]; simp
  have hsame := s.pages.putSpan_same r
  refine ⟨hi.sorted.mapSet .., ?_, ?_, ?_, hi.nodup.erase _, ?_, ?_, ?_, hi.next, hi.regions, ?_⟩
  · have hpush : Lists 0 (s.pages.setSpan r { s.pages.spans r with
        next := mapGet s.pages.freeSpans (s.pages.spans r).numPages }).links _ _ :=
      hi.lists.push (k := (s.pages.spans r).numPages) (a := r)
      (Nat.pos_iff_ne_zero.mp (hi.below hw).1) (by rw [hr]; rfl)
      (by rw [PageCache.links_setSpan, Function.update_self]; rfl) (fun r' k h => by
        rw [PageCache.links_setSpan, Function.update_of_ne]
        rintro rfl
        rw [hr] at h
        exact absurd h (by simp [bucketOf]))
    rw [bucketOf_update]
    show Lists 0 _ (mapGet (mapSet s.pages.freeSpans (s.pages.spans r).numPages r)) _
    rw [mapGet_mapSet]
    exact hpush
  · intro r' key h
    refine (hsame.pages r').trans ?_
    rcases update_eq_some.mp h with ⟨rfl, he⟩ | ⟨-, h⟩
    · exact Holder.bucket.inj (Option.some.inj he)
    · exact hi.key h
  · intro b n
    dsimp only
    rw [hi.nodup.mem_erase_iff, hi.live]
    constructor
    · rintro ⟨hne, r', h, h₁, h₂⟩
      have hr' : r' ≠ r := by
        rintro rfl
        exact hne (Prod.ext h₁.symm h₂.symm)
      exact ⟨r', (Function.update_of_ne hr' ..).trans h, (hsame.addr r').trans h₁,
        (hsame.pages r').trans h₂⟩
    · rintro ⟨r', h, h₁, h₂⟩
      have h₁ := (hsame.addr r').symm.trans h₁
      have h₂ := (hsame.pages r').symm.trans h₂
      rcases update_eq_some.mp h with ⟨-, he⟩ | ⟨hr', h⟩
      · exact absurd he (by simp)
      · refine ⟨fun he => hr' ?_, r', h, h₁, h₂⟩
        exact hi.addr_inj (by rw [h]; simp) hw (h₁.trans (Prod.mk.inj he).1)
  · intro r' h
    rcases update_eq_some.mp h with ⟨-, he⟩ | ⟨-, h⟩
    · exact absurd he (by simp)
    · dsimp only
      rw [hsame.addr r']
      exact hi.mapped h
  · intro b r' hb
    obtain ⟨h, h₁⟩ := hi.entry (show s.pages.spanMap b = some r' from hb)
    exact ⟨update_ne_none.mpr (Or.inr h), (hsame.addr r').trans h₁⟩
  · intro r' h
    rcases update_ne_none.mp h with rfl | h
    · exact hi.below hw
    · exact hi.below h
  · refine Eq.subst (motive := fun f => Tiles f _) ?_ hi.tiles
    funext r'
    unfold pieces
    dsimp only
    rw [hsame.addr r', hsame.pages r']
    by_cases hr' : r' = r
    · rw [hr', Function.update_self, hr]
      rfl
    · rw [Function.update_of_ne hr']

/-- Only links and heads have changed. -/
theorem Ok.relink (hi : Ok s w) {p : PageCache} (hsame : s.pages.SameRecords p)
    (hlists : Lists 0 p.links p.heads fun r => bucketOf (w r)) (hsorted : SortedKeys p.freeSpans) :
    Ok { s with pages := p } w := by
  refine ⟨hsorted, hlists, ?_, ?_, hi.nodup, ?_, ?_, ?_, ?_, hi.regions, ?_⟩
  · exact fun {r key} h => (hsame.pages r).trans (hi.key h)
  · intro a n
    refine hi.live.trans (exists_congr fun r => ?_)
    rw [hsame.addr r, hsame.pages r]
  · intro r h
    dsimp only
    rw [hsame.addr r, hsame.map]
    exact hi.mapped h
  · intro a r h
    dsimp only at h ⊢
    rw [hsame.map] at h
    rw [hsame.addr r]
    exact hi.entry h
  · intro r h
    dsimp only
    rw [hsame.next]
    exact hi.below h
  · dsimp only
    rw [hsame.next]
    exact hi.next
  · refine Eq.subst (motive := fun f => Tiles f _) ?_ hi.tiles
    funext r
    unfold pieces
    rw [hsame.addr r, hsame.pages r]

/-- **The merge.** The span takes in its free neighbour, whose entry goes; the caller still has
    the span, and now has it whole. -/
theorem Ok.merge (hi : Ok s w) {p : PageCache} {r nx key : Nat} (hsame : s.pages.SameRecords p)
    (hlists : Lists 0 p.links p.heads (Function.update (fun r => bucketOf (w r)) nx none))
    (hsorted : SortedKeys p.freeSpans) (hr : w r = some .caller) (hnx : w nx = some (.bucket key))
    (hnext : (s.pages.spans nx).pageAddr =
      (s.pages.spans r).pageAddr + (s.pages.spans r).numPages * PAGE_SIZE) :
    Ok { s with
        pages := p.absorb r nx (s.pages.spans nx).pageAddr
        live := ((s.pages.spans r).pageAddr, (s.pages.spans r).numPages + (s.pages.spans nx).numPages) ::
          s.live.erase ((s.pages.spans r).pageAddr, (s.pages.spans r).numPages) }
      (Function.update w nx none) := by
  have hw : w r ≠ none := by rw [hr]; simp
  have hwnx : w nx ≠ none := by rw [hnx]; simp
  have hrnx : r ≠ nx := by
    rintro rfl
    rw [hr] at hnx
    exact absurd hnx (by simp)
  obtain ⟨spans, hspans⟩ : ∃ spans, spans = Function.update p.spans r
      { p.spans r with numPages := (p.spans r).numPages + (p.spans nx).numPages } := ⟨_, rfl⟩
  have haddr : ∀ r', (spans r').pageAddr = (s.pages.spans r').pageAddr := by
    intro r'
    rw [← hsame.addr r', hspans]
    by_cases hr' : r' = r
    · rw [hr', Function.update_self]
    · rw [Function.update_of_ne hr']
  have hsr : (spans r).numPages = (s.pages.spans r).numPages + (s.pages.spans nx).numPages := by
    rw [hspans, Function.update_self, hsame.pages r, hsame.pages nx]
  have hso : ∀ {r'}, r' ≠ r → (spans r').numPages = (s.pages.spans r').numPages := by
    intro r' hr'
    rw [hspans, Function.update_of_ne hr', hsame.pages r']
  have hothers : ∀ {r' v}, Function.update w nx none r' = some v → r' ≠ nx ∧ w r' = some v := by
    intro r' v h
    rcases update_eq_some.mp h with ⟨-, he⟩ | h
    · exact absurd he (by simp)
    · exact h
  suffices hok : Ok { s with
      pages := { spans := spans
                 nextSpan := p.nextSpan
                 freeSpans := p.freeSpans
                 spanMap := Function.update p.spanMap (s.pages.spans nx).pageAddr none }
      live := ((s.pages.spans r).pageAddr, (s.pages.spans r).numPages + (s.pages.spans nx).numPages) ::
        s.live.erase ((s.pages.spans r).pageAddr, (s.pages.spans r).numPages) } (Function.update w nx none) by
    rw [hspans] at hok
    exact hok
  have hgone : ∀ {r' n}, w r' = some .caller → (s.pages.spans r').pageAddr = (s.pages.spans r).pageAddr →
      ((s.pages.spans r').pageAddr, n) ∉
        s.live.erase ((s.pages.spans r).pageAddr, (s.pages.spans r).numPages) := by
    intro r' n h ha hm
    obtain ⟨hne, hm⟩ := (hi.nodup.mem_erase_iff).mp hm
    obtain ⟨r₂, h₂, h₃, h₄⟩ := hi.live.mp hm
    obtain rfl := hi.addr_inj (by rw [h₂]; simp) hw (h₃.trans ha)
    exact hne (Prod.ext ha h₄.symm)
  refine ⟨hsorted, ?_, ?_, ?_, List.nodup_cons.mpr ⟨hgone hr rfl, hi.nodup.erase _⟩, ?_, ?_, ?_, ?_,
    hi.regions, ?_⟩
  · rw [bucketOf_update]
    refine hlists.frame fun r' key' _ => ?_
    show (spans r').next = (p.spans r').next
    rw [hspans]
    by_cases hr' : r' = r
    · rw [hr', Function.update_self]
    · rw [Function.update_of_ne hr']
  · intro r' key' h
    obtain ⟨-, h⟩ := hothers h
    refine (hso ?_).trans (hi.key h)
    rintro rfl
    rw [hr] at h
    exact absurd h (by simp)
  · intro b n
    dsimp only
    rw [List.mem_cons, hi.nodup.mem_erase_iff, hi.live]
    constructor
    · rintro (he | ⟨hne, r', h, h₁, h₂⟩)
      · obtain ⟨rfl, rfl⟩ := Prod.mk.inj he
        exact ⟨r, (Function.update_of_ne hrnx ..).trans hr, haddr r, hsr⟩
      · have hr' : r' ≠ r := by
          rintro rfl
          exact hne (Prod.ext h₁.symm h₂.symm)
        have hn' : r' ≠ nx := by
          rintro rfl
          rw [hnx] at h
          exact absurd h (by simp)
        exact ⟨r', (Function.update_of_ne hn' ..).trans h, (haddr r').trans h₁, (hso hr').trans h₂⟩
    · rintro ⟨r', h, h₁, h₂⟩
      obtain ⟨-, h⟩ := hothers h
      rw [haddr r'] at h₁
      by_cases hr' : r' = r
      · rw [hr'] at h₁ h₂
        rw [hsr] at h₂
        exact Or.inl (Prod.ext h₁.symm h₂.symm)
      · rw [hso hr'] at h₂
        refine Or.inr ⟨fun he => hr' ?_, r', h, h₁, h₂⟩
        exact hi.addr_inj (by rw [h]; simp) hw (h₁.trans (Prod.mk.inj he).1)
  · intro r' h
    obtain ⟨hn', h⟩ := hothers h
    dsimp only
    rw [haddr r', Function.update_of_ne, hsame.map]
    · exact hi.mapped h
    · exact fun heq => hn' (hi.addr_inj (by rw [h]; simp) hwnx heq)
  · intro b r' hb
    dsimp only at hb ⊢
    by_cases hba : b = (s.pages.spans nx).pageAddr
    · rw [hba, Function.update_self] at hb
      exact absurd hb (by simp)
    · rw [Function.update_of_ne hba, hsame.map] at hb
      obtain ⟨h, h₁⟩ := hi.entry hb
      have hn' : r' ≠ nx := by
        rintro rfl
        exact hba h₁.symm
      rw [Function.update_of_ne hn', haddr r']
      exact ⟨h, h₁⟩
  · intro r' h
    have hn' : r' ≠ nx := by
      rintro rfl
      rw [Function.update_self] at h
      exact h rfl
    rw [Function.update_of_ne hn'] at h
    dsimp only
    rw [hsame.next]
    exact hi.below h
  · dsimp only
    rw [hsame.next]
    exact hi.next
  · have htiles := hi.tiles.join (pieces_eq_some hw) (j := nx) (by rw [pieces_eq_some hwnx, hnext])
    refine Eq.subst (motive := fun f => Tiles f _) ?_ htiles
    funext r'
    unfold pieces
    dsimp only
    by_cases hn' : r' = nx
    · rw [hn', Function.update_self, Function.update_self]
      rfl
    · rw [Function.update_of_ne hn', Function.update_of_ne hn']
      by_cases hr' : r' = r
      · rw [hr', Function.update_self, hr, haddr r, hsr, Nat.add_mul]
        rfl
      · rw [Function.update_of_ne hr', haddr r', hso hr']

/-- What `unlinkFree` needs to know of a neighbour. -/
theorem Ok.unlink (hi : Ok s w) {nx rounds : Nat} {p : PageCache} {found : Bool} (hnx : w nx ≠ none)
    (h : s.pages.unlinkFree nx rounds = some (p, found)) :
    Lists 0 p.links p.heads (Function.update (fun r => bucketOf (w r)) nx none) ∧
      s.pages.SameRecords p ∧ (found = true ↔ bucketOf (w nx) ≠ none) ∧ SortedKeys p.freeSpans := by
  obtain ⟨h₁, h₂, h₃, h₄⟩ := PageCache.unlinkFree_lists hi.lists
    (fun hk => hi.key (bucketOf_eq_some.mp hk)) (Nat.pos_iff_ne_zero.mp (hi.below hnx).1) h
  exact ⟨h₁, h₂, h₃, h₄ hi.sorted⟩

/-- **A span is given back.** -/
theorem Ok.deallocate (hi : Ok s w) {ptr numPages rounds : Nat} {p : PageCache}
    (hlive : (ptr, numPages) ∈ s.live) (h : s.pages.deallocateSpan ptr numPages rounds = some p) :
    ∃ w', Ok { s with pages := p, live := s.live.erase (ptr, numPages) } w' := by
  obtain ⟨r, hr, rfl, rfl⟩ := hi.live.mp hlive
  rcases PageCache.deallocateSpan_cases (hi.mapped hr) h with
    ⟨-, rfl⟩ | ⟨nx, p₁, found, hent, hun, rfl⟩
  · exact ⟨_, hi.putBack hr⟩
  · obtain ⟨hnx, haddr⟩ := hi.entry hent
    obtain ⟨hlists, hsame, hfound, hsorted⟩ := hi.unlink hnx hun
    cases found with
    | false =>
      have hnone : bucketOf (w nx) = none := not_not.mp fun hne => absurd (hfound.mpr hne) (by simp)
      have hkeep : Function.update (fun r => bucketOf (w r)) nx none = fun r => bucketOf (w r) := by
        rw [← hnone]
        exact Function.update_eq_self ..
      rw [hkeep] at hlists
      have hput := (hi.relink hsame hlists hsorted).putBack hr
      dsimp only at hput
      rw [hsame.addr r, hsame.pages r] at hput
      exact ⟨_, hput⟩
    | true =>
      obtain ⟨key, hkey⟩ := Option.ne_none_iff_exists'.mp (hfound.mp rfl)
      have hbucket := bucketOf_eq_some.mp hkey
      have hrnx : r ≠ nx := by
        rintro rfl
        rw [hr] at hbucket
        exact absurd hbucket (by simp)
      have hput := (hi.merge hsame hlists hsorted hr hbucket haddr).putBack (r := r)
        ((Function.update_of_ne hrnx ..).trans hr)
      dsimp only at hput
      rw [p₁.absorb_self, hsame.addr r, hsame.pages r, hsame.pages nx, List.erase_cons_head, haddr] at hput
      exact ⟨_, hput⟩

/-- It always comes to an end. -/
theorem Ok.deallocate_isSome (hi : Ok s w) {ptr numPages : Nat} (hlive : (ptr, numPages) ∈ s.live) :
    ∃ rounds, (s.pages.deallocateSpan ptr numPages rounds).isSome := by
  obtain ⟨r, hr, rfl, rfl⟩ := hi.live.mp hlive
  unfold PageCache.deallocateSpan
  rw [hi.mapped hr]
  dsimp only
  cases hent : s.pages.spanMap ((s.pages.spans r).pageAddr + (s.pages.spans r).numPages * PAGE_SIZE) with
  | none => exact ⟨0, rfl⟩
  | some nx =>
    obtain ⟨rounds, hsome⟩ : ∃ rounds, (s.pages.unlinkFree nx rounds).isSome :=
      PageCache.unlinkFree_isSome hi.lists
    obtain ⟨⟨p₁, found⟩, hun⟩ := Option.isSome_iff_exists.mp hsome
    refine ⟨rounds, ?_⟩
    dsimp only
    rw [hun]
    cases found <;> rfl

end

/-! ## 5. Runs -/

/-- The size of a request that goes to `mmap` is a `size_t`. -/
def FitsSize (s : State) : Label → Prop
  | .allocateSpan numPages answer => s.pages.lowerBound numPages = none → answer ≠ none →
      numPages * PAGE_SIZE < 2 ^ 64
  | .deallocateSpan .. => True

theorem Ok.start : Ok {} fun _ => none := by
  refine ⟨List.Pairwise.nil, ?_, fun h => absurd h (by simp), ?_, List.nodup_nil, fun h => absurd h (by simp),
    fun h => absurd h (by simp), fun h => absurd rfl h, Nat.one_pos, fun region h => absurd h (by simp), ?_⟩
  · intro key
    refine ⟨[], rfl, fun r => ⟨fun h => absurd h (by simp), fun h => absurd h (by simp [bucketOf])⟩⟩
  · intro a n
    exact ⟨fun h => absurd h (by simp), fun ⟨r, h, _⟩ => absurd h (by simp)⟩
  · refine ⟨fun h => absurd h (by simp [pieces]), fun h => absurd h (by simp [pieces]), fun x => ?_⟩
    simp [mappedBytes, pieces]

theorem Ok.step {s s' : State} {w : Nat → Option Holder} {l : Label} {es : List Event} (hi : Ok s w)
    (hfits : FitsSize s l) (h : step s l = some (s', es)) : ∃ w', Ok s' w' := by
  cases l with
  | allocateSpan numPages answer =>
    obtain ⟨hpos, p, m, a, halloc, rfl⟩ := step_allocateSpan h
    cases hlb : s.pages.lowerBound numPages with
    | some e =>
      obtain ⟨rfl, htake⟩ := allocateSpan_take hlb halloc
      obtain ⟨ha, hok⟩ := hi.take hpos hlb htake
      rw [if_neg ha]
      exact hok
    | none =>
      rcases allocateSpan_mmap hlb halloc with ⟨rfl, -, rfl, rfl⟩ | ⟨hans, -, hfresh, rfl, rfl⟩
      · rw [if_pos rfl]
        exact ⟨w, hi⟩
      · have hsize : Memory.mmapSize numPages = numPages * PAGE_SIZE :=
          Nat.mod_eq_of_lt (hfits hlb (by rw [hans]; simp))
        rw [if_neg (Nat.pos_iff_ne_zero.mp hfresh.1)]
        rw [hsize] at hfresh ⊢
        exact ⟨_, hi.mmap hpos hfresh⟩
  | deallocateSpan ptr numPages rounds =>
    obtain ⟨hlive, p, hdealloc, rfl⟩ := step_deallocateSpan h
    exact hi.deallocate hlive hdealloc

/-- A span longer than its mapping is not conserved. -/
theorem Ok.not_conserved {s : State} {w : Nat → Option Holder} (hi : Ok s w) {numPages a size : Nat}
    {word : Nat → Nat} (hsize : size < numPages * PAGE_SIZE) :
    ¬ Conserved
      { pages := { s.pages with
          spans := Function.update s.pages.spans s.pages.nextSpan { pageAddr := a, numPages := numPages }
          nextSpan := s.pages.nextSpan + 1
          spanMap := Function.update s.pages.spanMap a (some s.pages.nextSpan) }
        mem := { word := word, regions := ⟨a, size⟩ :: s.mem.regions }
        live := (a, numPages) :: s.live } := by
  intro hc
  obtain ⟨p, hp⟩ : ∃ p : PageCache, p = { s.pages with
      spans := Function.update s.pages.spans s.pages.nextSpan { pageAddr := a, numPages := numPages }
      nextSpan := s.pages.nextSpan + 1
      spanMap := Function.update s.pages.spanMap a (some s.pages.nextSpan) } := ⟨_, rfl⟩
  rw [← hp] at hc
  have hspan : ∀ {r}, w r ≠ none → p.spans r = s.pages.spans r := by
    intro r hr
    rw [hp]
    refine Function.update_of_ne ?_ ..
    rintro rfl
    exact hr hi.next_none
  -- the byte behind the mapping belongs to the new span, so it must have been mapped before
  have hx : Range.Has (liveBytes (a, numPages)) (a + size) := by
    refine ⟨Nat.le_add_right .., ?_⟩
    show a + size < a + numPages * PAGE_SIZE
    omega
  obtain ⟨region, hreg, hin⟩ := (hc.union (a + size)).mpr (Or.inl ⟨_, List.mem_cons_self, hx⟩)
  rcases List.mem_cons.mp hreg with rfl | hreg
  · exact Nat.lt_irrefl _ hin.2
  · obtain ⟨r, b, n, hpiece, hb⟩ := (hi.tiles.union (a + size)).mp ⟨region, hreg, hin⟩
    obtain ⟨hr, rfl, rfl⟩ := of_pieces hpiece
    have hclash : (liveBytes (a, numPages)).Apart (spanBytes s.pages r) := by
      obtain ⟨h, hh⟩ := Option.ne_none_iff_exists'.mp hr
      cases h with
      | caller => exact (List.pairwise_cons.mp hc.live_live).1 _ (hi.live.mpr ⟨r, hh, rfl, rfl⟩)
      | bucket key =>
        have hlists : Lists 0 p.links p.heads fun r => bucketOf (w r) := by
          rw [show p.heads = s.pages.heads by rw [hp]; rfl]
          refine hi.lists.frame fun r' k hk => ?_
          exact congrArg Span.next (hspan (by rw [bucketOf_eq_some.mp hk]; simp))
        have hon := (hlists.onList_iff (k := key) (a := r)).mpr (bucketOf_eq_some.mpr hh)
        have hne : p.heads key ≠ 0 := by
          cases hon with
          | head h => exact h
          | next h _ => exact h
        have h := hc.live_free (a, numPages) List.mem_cons_self key r ⟨_, mem_of_mapGet hne, hon⟩
        unfold spanBytes at h ⊢
        dsimp only at h
        rw [hspan hr] at h
        exact h
    have h₁ : a + numPages * PAGE_SIZE ≤ (s.pages.spans r).pageAddr ∨
        (s.pages.spans r).pageAddr + (s.pages.spans r).numPages * PAGE_SIZE ≤ a := hclash
    omega

/-- A step after which the pages are conserved fits. -/
theorem Ok.fits {s s' : State} {w : Nat → Option Holder} {l : Label} {es : List Event} (hi : Ok s w)
    (h : PageCalls.step s l = some (s', es)) (hc : Conserved s') : FitsSize s l := by
  cases l with
  | deallocateSpan ptr numPages rounds => trivial
  | allocateSpan numPages answer =>
    intro hlb hans
    obtain ⟨-, p, m, a, halloc, rfl⟩ := step_allocateSpan h
    rcases allocateSpan_mmap hlb halloc with ⟨-, hnone, -⟩ | ⟨-, -, hfresh, rfl, rfl⟩
    · exact absurd hnone hans
    · by_contra hbig
      rw [if_neg (Nat.pos_iff_ne_zero.mp hfresh.1)] at hc
      refine hi.not_conserved ?_ hc
      have : Memory.mmapSize numPages < 2 ^ 64 := Nat.mod_lt _ (by simp)
      omega

instance (s : State) : ∀ l, Decidable (FitsSize s l)
  | .allocateSpan _ _ => inferInstanceAs (Decidable (_ → _ → _ < _))
  | .deallocateSpan _ _ _ => isTrue trivial

/-- **Pages are conserved in every state of a run exactly if no size passed to `mmap` wraps.** -/
theorem pages_conserved_iff {ls : List Label} {s : State} {τ : List Event}
    (hr : run step {} ls = some (s, τ)) :
    Always step Conserved {} ls ↔ Meets step FitsSize {} ls := by
  refine always_iff_meets_of_run (fun s => ∃ w, Ok s w) ?_ ?_ ?_ ⟨_, Ok.start⟩ hr
  · rintro s ⟨w, hi⟩
    exact hi.conserved
  · rintro s l s' es ⟨w, hi⟩ hfits hs
    exact hi.step hfits hs
  · rintro s l s' es ⟨w, hi⟩ hs hc
    exact hi.fits hs hc

/-- Sixteen pages are split in two, and merged again when both halves have come back. -/
def splitAndMerge : List Label :=
  [.allocateSpan 16 (some 4096), .deallocateSpan 4096 16 0, .allocateSpan 8 none, .allocateSpan 8 none,
    .deallocateSpan 36864 8 0, .deallocateSpan 4096 8 0]

theorem pages_conserved_splitAndMerge :
    ∃ s τ, run step {} splitAndMerge = some (s, τ) ∧ s.pages.freeSpans = [(8, 0), (16, 1)] ∧
      Always step Conserved {} splitAndMerge := by
  obtain ⟨⟨s, τ⟩, hr, hs⟩ := Option.map_eq_some_iff.mp (show (run step {} splitAndMerge).map
    (fun p => p.1.pages.freeSpans) = some [(8, 0), (16, 1)] by decide)
  exact ⟨s, τ, hr, hs, (pages_conserved_iff hr).mpr (by decide)⟩

/-- One page more than a `size_t` has bytes for: `mmap` is asked for a single page. -/
theorem pages_not_conserved :
    ∃ s τ, run step {} [.allocateSpan 4503599627370497 (some 4096)] = some (s, τ) ∧
      s.live = [(4096, 4503599627370497)] ∧ s.mem.regions = [⟨4096, 4096⟩] ∧ ¬ Conserved s := by
  obtain ⟨⟨s, τ⟩, hr, hs⟩ := Option.map_eq_some_iff.mp
    (show (run step {} [.allocateSpan 4503599627370497 (some 4096)]).map
      (fun p => (p.1.live, p.1.mem.regions)) = some ([(4096, 4503599627370497)], [⟨4096, 4096⟩]) by
        decide)
  obtain ⟨hlive, hreg⟩ := Prod.mk.inj hs
  refine ⟨s, τ, hr, hlive, hreg, fun hc => ?_⟩
  dsimp only at hlive hreg
  obtain ⟨region, hmem, hin⟩ := (hc.union 8192).mpr
    (Or.inl ⟨(4096, 4503599627370497), by rw [hlive]; exact List.mem_cons_self,
      by simp [Range.Has, liveBytes, PAGE_SIZE]⟩)
  rw [hreg, List.mem_singleton] at hmem
  rw [hmem] at hin
  exact absurd hin.2 (by simp)

end PageCalls
end Pool
end EpollChat
