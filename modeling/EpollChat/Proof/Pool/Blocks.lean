import EpollChat.Proof.Pool.Carve

/-!
# Who owns which block

The links of the free lists lie inside the blocks, and the owner of a block writes what it
likes into it; so nothing can be said about a list without saying who owns which block. The
invariant keeps a table for that purpose, which the program does not have: `w a` is the class
and the place of the block at `a`. A block is live, in the hands of a thread that is fetching
it, or on one list. Two blocks of the table never overlap, and a span that a thread is about
to cut up overlaps none.

`PcSafe` is what a thread in the middle of `fetchRange` relies on while others run, and `Safe`
the invariant of the whole pool.
-/

namespace EpollChat
namespace Pool

open Lib Machine

/-! ## 1. The table of blocks -/

inductive Place where
  | live
  | inHand (tid : Nat)
  /-- On the list of a thread, or on the central one. -/
  | free (owner : Option Nat)
  /-- Given back to the page cache. -/
  | gone
deriving DecidableEq

structure Slot where
  cls : Nat
  place : Place

/-- The list a block is on: its owner and its class. -/
def Slot.list : Slot → Option (Option Nat × Nat)
  | ⟨index, .free owner⟩ => some (owner, index)
  | _ => none

def Slot.range (a : Nat) (x : Slot) : Range := ⟨a, blockSize x.cls⟩

def onList (w : Nat → Option Slot) (a : Nat) : Option (Option Nat × Nat) := (w a).bind Slot.list

/-- The first block of every list. -/
def heads (c : CentralCache) (caches : Nat → ThreadCache) : Option Nat × Nat → Nat
  | (none, index) => c.centralFreeList index
  | (some tid, index) => (caches tid).freeList index

/-- The blocks of the table do not overlap and lie inside what `mmap` gave out. -/
structure Blocks (regions : List Range) (w : Nat → Option Slot) : Prop where
  pos : ∀ {a x}, w a = some x → a ≠ 0
  aligned : ∀ {a x}, w a = some x → a % 8 = 0
  inside : ∀ {a x}, w a = some x →
    ∃ r ∈ regions, r.start ≤ a ∧ a + blockSize x.cls ≤ r.start + r.bytes
  apart : ∀ {a b x y}, w a = some x → w b = some y → a ≠ b → (x.range a).Apart (y.range b)

theorem Range.Apart.symm {r r' : Range} (h : r.Apart r') : r'.Apart r := Or.symm h

/-- An address inside the block at `b` is the start of no other block. -/
theorem Blocks.start_ne {regions : List Range} {w : Nat → Option Slot} (hb : Blocks regions w)
    {a b c : Nat} {x y : Slot} (ha : w a = some x) (hy : w b = some y) (hne : a ≠ b)
    (hc : b ≤ c) (hc' : c < b + blockSize y.cls) : a ≠ c := by
  have h : a + blockSize x.cls ≤ b ∨ b + blockSize y.cls ≤ a := hb.apart ha hy hne
  have hpos := blockSize_pos x.cls
  omega

theorem Blocks.mono {regions regions' : List Range} {w : Nat → Option Slot} (hb : Blocks regions w)
    (h : ∀ r ∈ regions, r ∈ regions') : Blocks regions' w := by
  refine ⟨hb.pos, hb.aligned, fun ha => ?_, hb.apart⟩
  obtain ⟨r, hr, hin⟩ := hb.inside ha
  exact ⟨r, h r hr, hin⟩

/-- The same blocks, with the same classes. -/
def SameClasses (w w' : Nat → Option Slot) : Prop := ∀ a, (w' a).map Slot.cls = (w a).map Slot.cls

theorem SameClasses.refl (w : Nat → Option Slot) : SameClasses w w := fun _ => rfl

theorem SameClasses.back {w w' : Nat → Option Slot} (h : SameClasses w w') {a : Nat} {y : Slot}
    (hy : w' a = some y) : ∃ x, w a = some x ∧ x.cls = y.cls := by
  have h' := h a
  rw [hy, Option.map_some] at h'
  obtain ⟨x, hx, hcls⟩ := Option.map_eq_some_iff.mp h'.symm
  exact ⟨x, hx, hcls⟩

theorem Blocks.of_classes {regions : List Range} {w w' : Nat → Option Slot} (hb : Blocks regions w)
    (h : SameClasses w w') : Blocks regions w' := by
  refine ⟨?_, ?_, ?_, ?_⟩
  · intro b y hy
    obtain ⟨x, hx, -⟩ := h.back hy
    exact hb.pos hx
  · intro b y hy
    obtain ⟨x, hx, -⟩ := h.back hy
    exact hb.aligned hx
  · intro b y hy
    obtain ⟨x, hx, hcls⟩ := h.back hy
    rw [← hcls]
    exact hb.inside hx
  · intro b c y z hy hz hne
    obtain ⟨x, hx, hcls⟩ := h.back hy
    obtain ⟨x', hx', hcls'⟩ := h.back hz
    have hap := hb.apart hx hx' hne
    simp only [Slot.range, hcls, hcls'] at hap
    exact hap

/-- A block goes to another place. -/
def moveTo (w : Nat → Option Slot) (a index : Nat) (p : Place) : Nat → Option Slot :=
  Function.update w a (some ⟨index, p⟩)

theorem moveTo_same (w : Nat → Option Slot) (a index : Nat) (p : Place) :
    moveTo w a index p a = some ⟨index, p⟩ := Function.update_self ..

theorem moveTo_other {a b : Nat} (h : b ≠ a) (w : Nat → Option Slot) (index : Nat) (p : Place) :
    moveTo w a index p b = w b := Function.update_of_ne h ..

theorem sameClasses_moveTo {w : Nat → Option Slot} {a index : Nat} {q : Place}
    (ha : w a = some ⟨index, q⟩) (p : Place) : SameClasses w (moveTo w a index p) := by
  intro b
  by_cases h : b = a
  · rw [h, moveTo_same, ha]
    rfl
  · rw [moveTo_other h]

theorem Blocks.moveTo {regions : List Range} {w : Nat → Option Slot} (hb : Blocks regions w)
    {a index : Nat} {q : Place} (ha : w a = some ⟨index, q⟩) (p : Place) :
    Blocks regions (moveTo w a index p) := hb.of_classes (sameClasses_moveTo ha p)

theorem onList_moveTo (w : Nat → Option Slot) (a index : Nat) (p : Place) :
    onList (Pool.moveTo w a index p) = Function.update (onList w) a (Slot.list ⟨index, p⟩) := by
  funext b
  by_cases h : b = a
  · subst h
    rw [Function.update_self, onList, moveTo_same]
    rfl
  · rw [Function.update_of_ne h, onList, moveTo_other h]
    rfl

theorem onList_eq_some {w : Nat → Option Slot} {a index : Nat} {owner : Option Nat} :
    onList w a = some (owner, index) ↔ w a = some ⟨index, .free owner⟩ := by
  unfold onList
  constructor
  · intro h
    obtain ⟨⟨i, p⟩, hx, hl⟩ := Option.bind_eq_some_iff.mp h
    cases p with
    | free o =>
      simp only [Slot.list, Option.some.injEq, Prod.mk.injEq] at hl
      rw [hx, hl.1, hl.2]
    | live => exact absurd hl (by simp [Slot.list])
    | inHand t => exact absurd hl (by simp [Slot.list])
    | gone => exact absurd hl (by simp [Slot.list])
  · intro h
    rw [h]
    rfl

/-! ## 2. What a thread in the middle of `fetchRange` relies on -/

def spanRange (index start : Nat) : Range := ⟨start, spanPages (blockSize index) * PAGE_SIZE⟩

theorem span_bytes_pos (index start : Nat) : 0 < (spanRange index start).bytes := by
  have h := size_le_span (blockSize index)
  have hpos := blockSize_pos index
  show 0 < spanPages (blockSize index) * PAGE_SIZE
  omega

/-- The request, and its class. -/
def Pc.call : Pc → Option (Nat × Nat)
  | .idle => none
  | .wantLock size index => some (size, index)
  | .needSpan size index => some (size, index)
  | .gotSpan size index _ => some (size, index)
  | .gotRange size index _ => some (size, index)

/-- The class whose lock it holds. -/
def Pc.holds : Pc → Option Nat
  | .needSpan _ index => some index
  | .gotSpan _ index _ => some index
  | _ => none

/-- The span it is about to cut up. -/
def Pc.span : Pc → Option Range
  | .gotSpan _ index start => some (spanRange index start)
  | _ => none

/-- The block it has fetched, with its class. -/
def Pc.hand : Pc → Option (Nat × Nat)
  | .gotRange _ index start => some (index, start)
  | _ => none

/-- The word it takes to be null. -/
def Pc.watched : Pc → Option Nat
  | .gotSpan _ _ start => some start
  | .gotRange _ _ start => some start
  | _ => none

/-- The word is the first of the span, or of the block in hand. -/
theorem Pc.watched_cases {pc : Pc} {a : Nat} (h : pc.watched = some a) :
    (∃ r, pc.span = some r ∧ r.start = a ∧ 0 < r.bytes) ∨ ∃ index, pc.hand = some (index, a) := by
  cases pc with
  | gotSpan size index start => exact Or.inl ⟨_, rfl, Option.some.inj h, span_bytes_pos index start⟩
  | gotRange size index start =>
    obtain rfl := Option.some.inj h
    exact Or.inr ⟨index, rfl⟩
  | idle => exact absurd h (by simp [Pc.watched])
  | wantLock _ _ => exact absurd h (by simp [Pc.watched])
  | needSpan _ _ => exact absurd h (by simp [Pc.watched])

structure PcSafe (s : State) (w : Nat → Option Slot) (t : Nat) (pc : Pc) : Prop where
  call : ∀ {size index}, pc.call = some (size, index) →
    size ≤ MAX_BYTES ∧ index = getIndex size ∧ (s.caches t).freeList index = 0
  lock : ∀ {index}, pc.holds = some index →
    s.locks index = true ∧ s.central.centralFreeList index = 0
  span : ∀ {r}, pc.span = some r → r ∈ s.mem.regions ∧ 0 < r.start ∧ r.start % 8 = 0 ∧
    ∀ {a x}, w a = some x → (x.range a).Apart r
  hand : ∀ {index a}, pc.hand = some (index, a) → w a = some ⟨index, .inHand t⟩
  watched : ∀ {a}, pc.watched = some a → s.mem.word a = 0

/-- Two threads hold different locks and cut up different spans. -/
structure PcApart (pc pc' : Pc) : Prop where
  holds : ∀ {index}, pc.holds = some index → pc'.holds ≠ some index
  span : ∀ {r r'}, pc.span = some r → pc'.span = some r' → r.Apart r'

theorem PcApart.symm {pc pc' : Pc} (h : PcApart pc pc') : PcApart pc' pc :=
  ⟨fun h₁ h₂ => h.holds h₂ h₁, fun h₁ h₂ => (h.span h₂ h₁).symm⟩

theorem PcSafe.idle (s : State) (w : Nat → Option Slot) (t : Nat) : PcSafe s w t .idle :=
  ⟨fun h => absurd h (by simp [Pc.call]), fun h => absurd h (by simp [Pc.holds]),
    fun h => absurd h (by simp [Pc.span]), fun h => absurd h (by simp [Pc.hand]),
    fun h => absurd h (by simp [Pc.watched])⟩

/-- The word a thread watches lies in no block of others. -/
theorem PcSafe.watched_outside {s : State} {w : Nat → Option Slot} {t : Nat} {pc : Pc}
    (hp : PcSafe s w t pc) {regions : List Range} (hb : Blocks regions w) {a c : Nat} {x : Slot}
    (ha : w a = some x) (hx : x.place ≠ .inHand t) (hc : a ≤ c) (hc' : c < a + blockSize x.cls) :
    pc.watched ≠ some c := by
  intro hw
  rcases Pc.watched_cases hw with ⟨r, hr, rfl, hpos⟩ | ⟨index, hh⟩
  · have hap : a + blockSize x.cls ≤ r.start ∨ r.start + r.bytes ≤ a := (hp.span hr).2.2.2 ha
    omega
  · have hin := hp.hand hh
    have hne : c ≠ a := by
      rintro rfl
      rw [ha, Option.some.injEq] at hin
      exact hx (by rw [hin])
    exact hb.start_ne hin ha hne hc hc' rfl

/-- A block that is not this thread's goes to another place, and its words may change. -/
theorem PcSafe.move {s s' : State} {w : Nat → Option Slot} {t : Nat} {pc : Pc} {a index : Nat}
    {q : Place} (p : Place) (hp : PcSafe s w t pc) (hb : Blocks s.mem.regions w)
    (ha : w a = some ⟨index, q⟩) (hq : q ≠ .inHand t)
    (hcache : (s'.caches t).freeList = (s.caches t).freeList)
    (hlock : ∀ {i}, pc.holds = some i →
      s'.locks i = s.locks i ∧ s'.central.centralFreeList i = s.central.centralFreeList i)
    (hreg : s'.mem.regions = s.mem.regions)
    (hword : ∀ c, (a ≤ c → ¬ c < a + blockSize index) → s'.mem.word c = s.mem.word c) :
    PcSafe s' (moveTo w a index p) t pc := by
  refine ⟨?_, ?_, ?_, ?_, ?_⟩
  · intro size i h
    rw [hcache]
    exact hp.call h
  · intro i h
    rw [(hlock h).1, (hlock h).2]
    exact hp.lock h
  · intro r h
    obtain ⟨hr, hpos, hal, hap⟩ := hp.span h
    refine ⟨by rw [hreg]; exact hr, hpos, hal, fun {b y} hy => ?_⟩
    obtain ⟨x, hx, hcls⟩ := (sameClasses_moveTo ha p).back hy
    have h := hap hx
    simp only [Slot.range, hcls] at h
    exact h
  · intro i b h
    have hin := hp.hand h
    have hne : b ≠ a := by
      rintro rfl
      rw [ha, Option.some.injEq, Slot.mk.injEq] at hin
      exact hq hin.2
    rw [moveTo_other hne]
    exact hin
  · intro c h
    rw [hword c fun hc hc' => hp.watched_outside hb ha hq hc hc' h]
    exact hp.watched h

/-! ## 3. The invariant -/

def isSmall (b : Block) : Bool := b.size ≤ MAX_BYTES

structure Safe (s : State) (w : Nat → Option Slot) : Prop where
  blocks : Blocks s.mem.regions w
  lists : Lists 0 s.mem.word (heads s.central s.caches) (onList w)
  small : ∀ {b}, b ∈ s.live → b.size ≤ MAX_BYTES → w b.addr = some ⟨getIndex b.size, .live⟩
  distinct : ((s.live.filter isSmall).map Block.addr).Nodup
  large : ∀ {b}, b ∈ s.live → MAX_BYTES < b.size → ∀ r ∈ s.mem.regions, b.range.Apart r
  threads : ∀ t, PcSafe s w t (s.threads t)
  apart : ∀ {t t'}, t ≠ t' → PcApart (s.threads t) (s.threads t')
  noFree : s.pages.freeSpans = []

theorem heads_setCache (s : State) (t index head size : Nat) :
    heads s.central (setCache s t ((s.caches t).set index head size)).caches
      = Function.update (heads s.central s.caches) (some t, index) head := by
  funext ⟨o, i⟩
  cases o with
  | none => rw [Function.update_of_ne (by simp)]; rfl
  | some t' =>
    show ((Function.update s.caches t ((s.caches t).set index head size)) t').freeList i = _
    by_cases ht : t' = t
    · subst ht
      rw [Function.update_self]
      show Function.update (s.caches t').freeList index head i = _
      by_cases hi : i = index
      · subst hi
        rw [Function.update_self, Function.update_self]
      · rw [Function.update_of_ne hi, Function.update_of_ne (by simp [hi])]
        rfl
    · rw [Function.update_of_ne ht, Function.update_of_ne (by simp [ht])]
      rfl

/-- A new first block of a central list. -/
theorem heads_central {c c' : CentralCache} {caches : Nat → ThreadCache} {index head : Nat}
    (h : c'.centralFreeList = Function.update c.centralFreeList index head) :
    heads c' caches = Function.update (heads c caches) (none, index) head := by
  funext ⟨o, i⟩
  cases o with
  | none =>
    show c'.centralFreeList i = _
    rw [h]
    by_cases hi : i = index
    · subst hi
      rw [Function.update_self, Function.update_self]
    · rw [Function.update_of_ne hi, Function.update_of_ne (by simp [hi])]
      rfl
  | some t =>
    rw [Function.update_of_ne (by simp)]
    rfl

/-- The first block of a list. -/
theorem Safe.head {s : State} {w : Nat → Option Slot} (hi : Safe s w) (owner : Option Nat)
    {index : Nat} (h : heads s.central s.caches (owner, index) ≠ 0) :
    w (heads s.central s.caches (owner, index)) = some ⟨index, .free owner⟩ :=
  onList_eq_some.mp (hi.lists.place_head h)

/-! ## 4. The live blocks -/

/-- A block that was not live is handed out. -/
theorem Safe.live_hand {s : State} {w : Nat → Option Slot} (hi : Safe s w) {a size : Nat} {q : Place}
    (ha : w a = some ⟨getIndex size, q⟩) (hq : q ≠ .live) :
    (∀ {b}, b ∈ Block.mk a size :: s.live → b.size ≤ MAX_BYTES →
        moveTo w a (getIndex size) .live b.addr = some ⟨getIndex b.size, .live⟩) ∧
      (((Block.mk a size :: s.live).filter isSmall).map Block.addr).Nodup := by
  have hne : ∀ {b}, b ∈ s.live → b.size ≤ MAX_BYTES → b.addr ≠ a := by
    rintro b hb hs rfl
    rw [hi.small hb hs, Option.some.injEq, Slot.mk.injEq] at ha
    exact hq ha.2.symm
  refine ⟨?_, ?_⟩
  · intro b hb hs
    rcases List.mem_cons.mp hb with rfl | hb
    · exact moveTo_same ..
    · rw [moveTo_other (hne hb hs)]
      exact hi.small hb hs
  · rw [List.filter_cons]
    split
    · rw [List.map_cons, List.nodup_cons]
      refine ⟨fun hm => ?_, hi.distinct⟩
      obtain ⟨b, hb, heq⟩ := List.mem_map.mp hm
      obtain ⟨hb, hs⟩ := List.mem_filter.mp hb
      exact hne hb (by simpa [isSmall] using hs) heq
    · exact hi.distinct

/-- The other live blocks, when one is given back. -/
theorem Safe.live_erase {s : State} {w : Nat → Option Slot} (hi : Safe s w) {b : Block}
    (hb : b ∈ s.live) :
    (((s.live.erase b).filter isSmall).map Block.addr).Nodup ∧
      ∀ {b'}, b' ∈ s.live.erase b → b'.size ≤ MAX_BYTES → b.size ≤ MAX_BYTES → b'.addr ≠ b.addr := by
  have hperm := ((List.perm_cons_erase hb).filter isSmall).map Block.addr
  have hnd := hperm.nodup_iff.mp hi.distinct
  refine ⟨?_, ?_⟩
  · rw [List.filter_cons] at hnd
    split at hnd
    · exact (List.nodup_cons.mp hnd).2
    · exact hnd
  · intro b' hb' hs' hs heq
    rw [List.filter_cons_of_pos (by simpa [isSmall] using hs), List.map_cons, List.nodup_cons] at hnd
    refine hnd.1 (List.mem_map.mpr ⟨b', List.mem_filter.mpr ⟨hb', ?_⟩, heq⟩)
    simpa [isSmall] using hs'

end Pool
end EpollChat
