import EpollChat.Proof.Pool.FreeSpans
import EpollChat.Proof.Pool.Safety

/-!
# When the page cache follows a null span

`allocateSpan` erases a bucket it empties. `deallocateSpan` does not: it looks for its neighbour
with `freeSpans_[nextSpan->numPages]`, which makes the bucket if there is none, and it leaves
the bucket behind when it takes the only span out of it. The next `allocateSpan` for which that
bucket is the lower bound dereferences null.

`KeepsBuckets` says when this does not happen, and `no_null_span_iff` that it is exact.
-/

namespace EpollChat
namespace Pool
namespace PageCalls

open Lib Machine

/-! ## 1. The property and its condition -/

/-- Every bucket has a span, so every request that finds a bucket is served from one. -/
def NoNull (s : State) : Prop :=
  (∀ e ∈ s.pages.freeSpans, e.2 ≠ 0) ∧
    ∀ numPages, (∃ e ∈ s.pages.freeSpans, numPages ≤ e.1) → ∃ key span p a,
      s.pages.lowerBound numPages = some (key, span) ∧ s.pages.takeSpan numPages key span = some (p, a)

/-- If the span has a neighbour in `spanMap_`: where the neighbour heads its bucket, there is
    another span behind it, and where that bucket is missing, the span itself goes into it. -/
def KeepsBuckets (s : State) : Label → Prop
  | .allocateSpan .. => True
  | .deallocateSpan ptr numPages _ =>
      ∀ span ∈ s.pages.spanMap ptr, ∀ nx ∈ s.pages.spanMap (ptr + numPages * PAGE_SIZE),
        (s.pages.heads (s.pages.spans nx).numPages = nx → s.pages.links nx ≠ 0) ∧
        (s.pages.heads (s.pages.spans nx).numPages = 0 →
          (s.pages.spans span).numPages = (s.pages.spans nx).numPages)

instance (s : State) : ∀ l, Decidable (KeepsBuckets s l)
  | .allocateSpan _ _ => isTrue trivial
  | .deallocateSpan _ _ _ => inferInstanceAs (Decidable (∀ _ ∈ _, ∀ _ ∈ _, (_ → _) ∧ (_ → _)))

/-- The first half makes the second. -/
theorem noNull_of_heads {s : State} (h : ∀ e ∈ s.pages.freeSpans, e.2 ≠ 0) : NoNull s := by
  refine ⟨h, fun numPages ⟨e, he, hle⟩ => ?_⟩
  have hsome : (s.pages.lowerBound numPages).isSome := by
    unfold PageCache.lowerBound
    rw [List.find?_isSome]
    exact ⟨e, he, decide_eq_true hle⟩
  obtain ⟨⟨key, span⟩, hlb⟩ := Option.isSome_iff_exists.mp hsome
  have hne : span ≠ 0 := h _ (List.mem_of_find?_eq_some hlb)
  unfold PageCache.takeSpan
  exact ⟨key, span, _, _, hlb, if_neg hne⟩

/-! ## 2. What the calls do to the buckets -/

/-- `new Span` never gives a pointer twice, and every record has pages. -/
structure Bounded (p : PageCache) : Prop where
  next : 0 < p.nextSpan
  sorted : SortedKeys p.freeSpans
  head : ∀ e ∈ p.freeSpans, e.2 < p.nextSpan
  link : ∀ r, p.links r < p.nextSpan
  entry : ∀ {a r}, p.spanMap a = some r → 0 < r ∧ r < p.nextSpan
  pages : ∀ r, 0 < r → r < p.nextSpan → 0 < (p.spans r).numPages

theorem Bounded.get {p : PageCache} (hb : Bounded p) {m : List (Nat × Nat)}
    (hm : ∀ e ∈ m, e.2 < p.nextSpan) (key : Nat) : mapGet m key < p.nextSpan := by
  by_cases h : mapGet m key = 0
  · rw [h]
    exact hb.next
  · exact hm _ (mem_of_mapGet h)

/-- `unlinkBehind` changes a link, or nothing. -/
theorem unlinkBehind_cases {p p' : PageCache} {target : Nat} {found : Bool} :
    ∀ {rounds prev : Nat}, p.unlinkBehind target rounds prev = some (p', found) →
      (found = false ∧ p' = p) ∨
      (found = true ∧ ∃ q, p' = p.setSpan q { p.spans q with next := (p.spans target).next }) := by
  intro rounds
  induction rounds with
  | zero =>
    intro prev h
    rcases PageCache.unlinkBehind_step h with ⟨-, hf, hp⟩ | ⟨-, -, hf, hp⟩ | ⟨-, -, left, hleft, -⟩
    · exact Or.inl ⟨hf, hp⟩
    · exact Or.inr ⟨hf, prev, hp⟩
    · exact absurd hleft (by simp)
  | succ rounds ih =>
    intro prev h
    rcases PageCache.unlinkBehind_step h with ⟨-, hf, hp⟩ | ⟨-, -, hf, hp⟩ | ⟨-, -, left, hleft, h⟩
    · exact Or.inl ⟨hf, hp⟩
    · exact Or.inr ⟨hf, prev, hp⟩
    · obtain rfl := Nat.succ.inj hleft
      exact ih h

/-- What the search for the neighbour leaves: its bucket is there in any case, with the head it
    had, or with what was behind the neighbour. -/
theorem unlinkFree_cases {p p' : PageCache} {nx rounds : Nat} {found : Bool}
    (h : p.unlinkFree nx rounds = some (p', found)) :
    (p.heads (p.spans nx).numPages = nx ∧ found = true ∧
      p' = { p with
        freeSpans := mapSet (p.probe (p.spans nx).numPages).freeSpans (p.spans nx).numPages (p.links nx) }) ∨
    (p.heads (p.spans nx).numPages ≠ nx ∧ p.heads (p.spans nx).numPages ≠ 0 ∧ found = true ∧
      ∃ q, p' = (p.probe (p.spans nx).numPages).setSpan q { p.spans q with next := p.links nx }) ∨
    (p.heads (p.spans nx).numPages ≠ nx ∧ found = false ∧ p' = p.probe (p.spans nx).numPages) := by
  unfold PageCache.unlinkFree at h
  dsimp only at h
  split at h
  · next hhead =>
    simp only [Option.some.injEq, Prod.mk.injEq] at h
    exact Or.inl ⟨hhead, h.2.symm, h.1.symm⟩
  · next hhead =>
    split at h
    · next hne =>
      rcases unlinkBehind_cases h with ⟨hf, hp⟩ | ⟨hf, q, hp⟩
      · exact Or.inr (Or.inr ⟨hhead, hf, hp⟩)
      · exact Or.inr (Or.inl ⟨hhead, hne, hf, q, hp⟩)
    · simp only [Option.some.injEq, Prod.mk.injEq] at h
      exact Or.inr (Or.inr ⟨hhead, h.2.symm, h.1.symm⟩)

theorem Bounded.setNext {p : PageCache} (hb : Bounded p) (q : Nat) {n : Nat} (hn : n < p.nextSpan) :
    Bounded (p.setSpan q { p.spans q with next := n }) := by
  have hsame := PageCache.setNext_same p q n
  refine ⟨hb.next, hb.sorted, hb.head, fun r => ?_, hb.entry, fun r h₁ h₂ => ?_⟩
  · rw [PageCache.links_setSpan]
    by_cases hr : r = q
    · rw [hr, Function.update_self]
      exact hn
    · rw [Function.update_of_ne hr]
      exact hb.link r
  · rw [hsame.pages r]
    exact hb.pages r h₁ h₂

theorem Bounded.setBucket {p : PageCache} (hb : Bounded p) (key : Nat) {v : Nat} (hv : v < p.nextSpan) :
    Bounded { p with freeSpans := mapSet p.freeSpans key v } := by
  refine ⟨hb.next, hb.sorted.mapSet .., fun e he => ?_, hb.link, hb.entry, hb.pages⟩
  rcases mem_mapSet he with rfl | ⟨he, -⟩
  · exact hv
  · exact hb.head e he

theorem Bounded.probe {p : PageCache} (hb : Bounded p) (key : Nat) : Bounded (p.probe key) :=
  hb.setBucket key (hb.get hb.head key)

theorem Bounded.unlinkFree {p p' : PageCache} {nx rounds : Nat} {found : Bool} (hb : Bounded p)
    (h : p.unlinkFree nx rounds = some (p', found)) : Bounded p' := by
  rcases unlinkFree_cases h with ⟨-, -, rfl⟩ | ⟨-, -, -, q, rfl⟩ | ⟨-, -, rfl⟩
  · exact (hb.probe _).setBucket _ (hb.link nx)
  · exact (hb.probe _).setNext q (hb.link nx)
  · exact hb.probe _

/-! ## 3. `allocateSpan` -/

/-- The buckets after a request has been served from one. -/
theorem takeSpan_spec {p p' : PageCache} {numPages key span a : Nat} (hb : Bounded p) (hpos : 0 < numPages)
    (hspan : span < p.nextSpan) (h : p.takeSpan numPages key span = some (p', a)) :
    span ≠ 0 ∧ Bounded p' ∧ ∀ e ∈ p'.freeSpans, e.2 = 0 → e ∈ p.freeSpans := by
  unfold PageCache.takeSpan at h
  split at h
  · exact absurd h (by simp)
  · next h₀ =>
    obtain ⟨free, hfree⟩ : ∃ free, free = if (p.spans span).next ≠ 0 then
        mapSet p.freeSpans key (p.spans span).next else mapErase p.freeSpans key := ⟨_, rfl⟩
    have hsorted : SortedKeys free := by
      rw [hfree]
      split
      · exact hb.sorted.mapSet ..
      · exact hb.sorted.mapErase ..
    have hmem : ∀ e ∈ free, (e ∈ p.freeSpans ∨ e.2 ≠ 0) ∧ e.2 < p.nextSpan := by
      rw [hfree]
      split
      · next hne =>
        intro e he
        rcases mem_mapSet he with rfl | ⟨he, -⟩
        · exact ⟨Or.inr hne, hb.link span⟩
        · exact ⟨Or.inl he, hb.head e he⟩
      · intro e he
        have he := List.mem_of_mem_filter he
        exact ⟨Or.inl he, hb.head e he⟩
    have hspans := hb.pages span (Nat.pos_of_ne_zero h₀) hspan
    dsimp only at h
    rw [← hfree] at h
    split at h
    · next hlt =>
      obtain ⟨rfl, -⟩ := Prod.mk.inj (Option.some.inj h)
      have hrec : ∀ r v v', Function.update (Function.update p.spans p.nextSpan v) span v' r =
          if r = span then v' else if r = p.nextSpan then v else p.spans r := by
        intro r v v'
        by_cases hr : r = span
        · rw [hr, Function.update_self, if_pos rfl]
        · rw [Function.update_of_ne hr, if_neg hr]
          by_cases hr' : r = p.nextSpan
          · rw [hr', Function.update_self, if_pos rfl]
          · rw [Function.update_of_ne hr', if_neg hr']
      refine ⟨h₀, ⟨Nat.succ_pos _, hsorted.mapSet .., ?_, ?_, ?_, ?_⟩, ?_⟩
      · intro e he
        show e.2 < p.nextSpan + 1
        rcases mem_mapSet he with rfl | ⟨he, -⟩
        · exact Nat.lt_succ_self _
        · exact Nat.lt_succ_of_lt (hmem e he).2
      · intro r
        show (Function.update (Function.update p.spans p.nextSpan _) span _ r).next < p.nextSpan + 1
        rw [hrec]
        split
        · exact Nat.lt_succ_of_lt (hb.link span)
        · split
          · exact Nat.lt_succ_of_lt (hb.get (fun e he => (hmem e he).2) _)
          · exact Nat.lt_succ_of_lt (hb.link r)
      · intro b r hbr
        have hbr : Function.update p.spanMap _ (some span) b = some r := hbr
        show 0 < r ∧ r < p.nextSpan + 1
        by_cases hba : b = (p.spans span).pageAddr
        · rw [hba, Function.update_self, Option.some.injEq] at hbr
          rw [← hbr]
          exact ⟨Nat.pos_of_ne_zero h₀, Nat.lt_succ_of_lt hspan⟩
        · rw [Function.update_of_ne hba] at hbr
          exact ⟨(hb.entry hbr).1, Nat.lt_succ_of_lt (hb.entry hbr).2⟩
      · intro r h₁ h₂
        have h₂ : r < p.nextSpan + 1 := h₂
        show 0 < (Function.update (Function.update p.spans p.nextSpan _) span _ r).numPages
        rw [hrec]
        split
        · exact hpos
        · split
          · exact Nat.sub_pos_of_lt hlt
          · next hr => exact hb.pages r h₁ (by omega)
      · intro e he h₁
        rcases mem_mapSet he with rfl | ⟨he, -⟩
        · exact absurd h₁ (Nat.pos_iff_ne_zero.mp hb.next)
        · exact (hmem e he).1.resolve_right (fun hne => hne h₁)
    · obtain ⟨rfl, -⟩ := Prod.mk.inj (Option.some.inj h)
      refine ⟨h₀, ⟨hb.next, hsorted, fun e he => (hmem e he).2, hb.link, ?_, hb.pages⟩, ?_⟩
      · intro b r hbr
        have hbr : Function.update p.spanMap _ (some span) b = some r := hbr
        by_cases hba : b = (p.spans span).pageAddr
        · rw [hba, Function.update_self, Option.some.injEq] at hbr
          rw [← hbr]
          exact ⟨Nat.pos_of_ne_zero h₀, hspan⟩
        · rw [Function.update_of_ne hba] at hbr
          exact hb.entry hbr
      · exact fun e he h₁ => (hmem e he).1.resolve_right (fun hne => hne h₁)

theorem allocateSpan_spec {p p' : PageCache} {m m' : Memory} {numPages a : Nat} {answer : Option Nat}
    (hb : Bounded p) (hpos : 0 < numPages) (h : p.allocateSpan m numPages answer = some (p', m', a)) :
    Bounded p' ∧ ∀ e ∈ p'.freeSpans, e.2 = 0 → e ∈ p.freeSpans := by
  cases hlb : p.lowerBound numPages with
  | some e =>
    obtain ⟨-, htake⟩ := allocateSpan_take hlb h
    exact (takeSpan_spec hb hpos (hb.head _ (List.mem_of_find?_eq_some hlb)) htake).2
  | none =>
    rcases allocateSpan_mmap hlb h with ⟨-, -, -, rfl⟩ | ⟨-, -, -, -, rfl⟩
    · exact ⟨hb, fun e he _ => he⟩
    · refine ⟨⟨Nat.succ_pos _, hb.sorted, ?_, ?_, ?_, ?_⟩, fun e he _ => he⟩
      · exact fun e he => Nat.lt_succ_of_lt (hb.head e he)
      · intro r
        show (Function.update p.spans p.nextSpan _ r).next < p.nextSpan + 1
        by_cases hr : r = p.nextSpan
        · rw [hr, Function.update_self]
          exact Nat.succ_pos _
        · rw [Function.update_of_ne hr]
          exact Nat.lt_succ_of_lt (hb.link r)
      · intro b r hbr
        have hbr : Function.update p.spanMap a (some p.nextSpan) b = some r := hbr
        show 0 < r ∧ r < p.nextSpan + 1
        by_cases hba : b = a
        · rw [hba, Function.update_self, Option.some.injEq] at hbr
          rw [← hbr]
          exact ⟨hb.next, Nat.lt_succ_self _⟩
        · rw [Function.update_of_ne hba] at hbr
          exact ⟨(hb.entry hbr).1, Nat.lt_succ_of_lt (hb.entry hbr).2⟩
      · intro r h₁ h₂
        have h₂ : r < p.nextSpan + 1 := h₂
        show 0 < (Function.update p.spans p.nextSpan _ r).numPages
        by_cases hr : r = p.nextSpan
        · rw [hr, Function.update_self]
          exact hpos
        · rw [Function.update_of_ne hr]
          exact hb.pages r h₁ (by omega)

/-! ## 4. `deallocateSpan` -/

theorem Bounded.putSpan {p : PageCache} (hb : Bounded p) {span : Nat} (hspan : span < p.nextSpan) :
    Bounded (p.putSpan span) :=
  (hb.setNext span (hb.get hb.head _)).setBucket _ hspan

theorem Bounded.absorb {p : PageCache} (hb : Bounded p) (nx nextAddr : Nat) {span : Nat}
    (h₀ : 0 < span) (hspan : span < p.nextSpan) : Bounded (p.absorb span nx nextAddr) := by
  refine ⟨hb.next, hb.sorted, hb.head, ?_, ?_, ?_⟩
  · intro r
    show (p.setSpan span _).links r < p.nextSpan
    rw [PageCache.links_setSpan]
    by_cases hr : r = span
    · rw [hr, Function.update_self]
      exact hb.link span
    · rw [Function.update_of_ne hr]
      exact hb.link r
  · intro b r hbr
    have hbr : Function.update p.spanMap nextAddr none b = some r := hbr
    by_cases hba : b = nextAddr
    · rw [hba, Function.update_self] at hbr
      exact absurd hbr (by simp)
    · rw [Function.update_of_ne hba] at hbr
      exact hb.entry hbr
  · intro r h₁ h₂
    show 0 < (Function.update p.spans span _ r).numPages
    by_cases hr : r = span
    · rw [hr, Function.update_self]
      have := hb.pages span h₀ hspan
      exact Nat.add_pos_left this _
    · rw [Function.update_of_ne hr]
      exact hb.pages r h₁ h₂

/-- A bucket that `putSpan` leaves null was null, and is not the span's own. -/
theorem putSpan_null {p : PageCache} (hb : Bounded p) {span : Nat} (h₀ : span ≠ 0) :
    (∀ e ∈ (p.putSpan span).freeSpans, e.2 ≠ 0) ↔
      ∀ e ∈ p.freeSpans, e.2 = 0 → e.1 = (p.spans span).numPages := by
  constructor
  · intro h e he hnull
    by_contra hne
    exact h e (mem_mapSet_of_ne he hne) hnull
  · intro h e he hnull
    rcases mem_mapSet he with rfl | ⟨he, hk⟩
    · exact h₀ hnull
    · exact hk hb.sorted (h e he hnull)

/-- With no null bucket before, there is one after exactly if the condition fails. -/
theorem deallocateSpan_null {p p' : PageCache} {ptr numPages rounds span : Nat} (hb : Bounded p)
    (hnull : ∀ e ∈ p.freeSpans, e.2 ≠ 0) (hspan : p.spanMap ptr = some span)
    (h : p.deallocateSpan ptr numPages rounds = some p') :
    Bounded p' ∧ ((∀ e ∈ p'.freeSpans, e.2 ≠ 0) ↔
      ∀ nx ∈ p.spanMap (ptr + numPages * PAGE_SIZE),
        (p.heads (p.spans nx).numPages = nx → p.links nx ≠ 0) ∧
        (p.heads (p.spans nx).numPages = 0 → (p.spans span).numPages = (p.spans nx).numPages)) := by
  obtain ⟨hpos, hlt⟩ := hb.entry hspan
  have h₀ : span ≠ 0 := Nat.pos_iff_ne_zero.mp hpos
  have hsize := hb.pages span hpos hlt
  rcases PageCache.deallocateSpan_cases hspan h with ⟨hent, rfl⟩ | ⟨nx, p₁, found, hent, hun, rfl⟩
  · refine ⟨hb.putSpan hlt, ?_⟩
    rw [putSpan_null hb h₀, hent]
    exact ⟨fun _ nx hnx => absurd hnx (by simp), fun _ e he h => absurd h (hnull e he)⟩
  · have hnx₀ : nx ≠ 0 := Nat.pos_iff_ne_zero.mp (hb.entry hent).1
    have hb₁ := hb.unlinkFree hun
    -- the entries the search leaves
    have hprobe : ∀ e ∈ (p.probe (p.spans nx).numPages).freeSpans, e.2 = 0 →
        e = ((p.spans nx).numPages, 0) ∧ p.heads (p.spans nx).numPages = 0 := by
      intro e he hn
      rcases mem_mapSet he with rfl | ⟨he, -⟩
      · have hn : p.heads (p.spans nx).numPages = 0 := hn
        exact ⟨Prod.ext rfl hn, hn⟩
      · exact absurd hn (hnull e he)
    have hone : ∀ {P : Nat → Prop}, (∀ nx' ∈ p.spanMap (ptr + numPages * PAGE_SIZE), P nx') ↔ P nx := by
      intro P
      rw [hent]
      simp
    rw [hone]
    rcases unlinkFree_cases hun with ⟨hhead, rfl, rfl⟩ | ⟨hhead, hne, rfl, q, rfl⟩ | ⟨hhead, rfl, rfl⟩
    · have hba := hb₁.absorb nx (ptr + numPages * PAGE_SIZE) hpos hlt
      refine ⟨hba.putSpan hlt, ?_⟩
      rw [if_pos rfl, putSpan_null hba h₀]
      have hnew : (PageCache.absorb { p with
          freeSpans := mapSet (p.probe (p.spans nx).numPages).freeSpans (p.spans nx).numPages (p.links nx) }
          span nx (ptr + numPages * PAGE_SIZE) |>.spans span).numPages =
          (p.spans span).numPages + (p.spans nx).numPages :=
        congrArg Span.numPages (Function.update_self span _ p.spans)
      rw [hnew]
      constructor
      · intro h
        refine ⟨fun _ hzero => ?_, fun hz => absurd (hhead.symm.trans hz) hnx₀⟩
        have h := h ((p.spans nx).numPages, p.links nx) (mem_mapSet_self ..) hzero
        dsimp only at h
        omega
      · rintro ⟨hlink, -⟩ e he hn
        rcases mem_mapSet he with rfl | ⟨he, hk⟩
        · exact absurd hn (hlink hhead)
        · exact absurd ((hprobe e he hn).2.symm.trans hhead).symm hnx₀
    · have hba := hb₁.absorb nx (ptr + numPages * PAGE_SIZE) hpos hlt
      refine ⟨hba.putSpan hlt, ?_⟩
      rw [if_pos rfl, putSpan_null hba h₀]
      constructor
      · exact fun _ => ⟨fun heq => absurd heq hhead, fun hz => absurd hz hne⟩
      · exact fun _ e he hn => absurd (hprobe e he hn).2 hne
    · refine ⟨hb₁.putSpan hlt, ?_⟩
      rw [if_neg (by simp), putSpan_null hb₁ h₀]
      constructor
      · intro h
        refine ⟨fun heq => absurd heq hhead, fun hz => ?_⟩
        have hmem : ((p.spans nx).numPages, 0) ∈ (p.probe (p.spans nx).numPages).freeSpans := by
          have := mem_mapSet_self p.freeSpans (p.spans nx).numPages (p.heads (p.spans nx).numPages)
          rw [hz] at this
          unfold PageCache.probe
          rw [show mapGet p.freeSpans (p.spans nx).numPages = 0 from hz]
          exact this
        exact (h _ hmem rfl).symm
      · rintro ⟨-, hkey⟩ e he hn
        obtain ⟨rfl, hz⟩ := hprobe e he hn
        exact (hkey hz).symm

/-! ## 5. Runs -/

theorem Bounded.start : Bounded {} := by
  refine ⟨Nat.one_pos, List.Pairwise.nil, fun e he => absurd he (by simp), fun _ => Nat.one_pos,
    fun h => absurd h (by simp), fun r h₁ h₂ => ?_⟩
  have h₂ : r < 1 := h₂
  omega

/-- Three spans come back; the neighbour that is merged is not alone in its bucket. -/
def keepsBucket : List Label :=
  [.allocateSpan 8 (some 4096), .allocateSpan 8 (some 36864), .allocateSpan 8 (some 1048576),
    .deallocateSpan 1048576 8 0, .deallocateSpan 36864 8 0, .deallocateSpan 4096 8 0]

end PageCalls
end Pool
end EpollChat
