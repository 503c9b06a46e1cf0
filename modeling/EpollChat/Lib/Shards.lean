import EpollChat.Lib.Machine
import Mathlib.Data.List.AList

/-!
# Tables in shards

A table that is cut into shards, so that threads that need different keys rarely wait for each
other. Which shard a key belongs to is a function of the key, and an entry cannot be anywhere
else (`Sharded.placed`). For one key at a time a table of shards is one table (`lookup_insert`,
`lookup_erase`).

It is not one table to a thread that wants all of it: that thread goes from shard to shard, and
the table changes meanwhile. `scan_spec` says what it has seen in the end: everything that was
there all the time, nothing that was never there, and nothing twice, though entries come and go
in the meantime. For the last, a value has to keep the key it is entered under (`key`).
-/

namespace Lib

open Machine

/-- A table over shards `ι`, with the entries of a shard in the order in which it lists them. -/
structure Sharded {K ι : Type*} (shardIndex : K → ι) (V : Type*) where
  shards : ι → AList fun _ : K => V
  placed : ∀ i k, k ∈ shards i → shardIndex k = i

namespace Sharded

variable {K ι V : Type*} {shardIndex : K → ι}

/-! ## 1. One key -/

section

variable [DecidableEq K] [DecidableEq ι]

def empty : Sharded shardIndex V := ⟨fun _ => ∅, fun _ _ h => absurd h (AList.notMem_empty _)⟩

def lookup (t : Sharded shardIndex V) (k : K) : Option V := (t.shards (shardIndex k)).lookup k

/-- Change the shard of `k`; the new keys of it have to belong there. -/
def modify (t : Sharded shardIndex V) (k : K) (shard : AList fun _ : K => V)
    (h : ∀ k' ∈ shard, shardIndex k' = shardIndex k) : Sharded shardIndex V where
  shards := Function.update t.shards (shardIndex k) shard
  placed := by
    intro i k' hk'
    by_cases hi : i = shardIndex k
    · subst hi
      rw [Function.update_self] at hk'
      exact h k' hk'
    · rw [Function.update_of_ne hi] at hk'
      exact t.placed i k' hk'

def insert (t : Sharded shardIndex V) (k : K) (v : V) : Sharded shardIndex V :=
  t.modify k ((t.shards (shardIndex k)).insert k v) fun k' hk' => by
    rcases (AList.mem_insert _).mp hk' with rfl | hk'
    · rfl
    · exact t.placed _ _ hk'

def erase (t : Sharded shardIndex V) (k : K) : Sharded shardIndex V :=
  t.modify k ((t.shards (shardIndex k)).erase k) fun _ hk' => t.placed _ _ (AList.mem_erase.mp hk').2

omit [DecidableEq ι] in
@[simp] theorem lookup_empty (k : K) : (empty : Sharded shardIndex V).lookup k = none :=
  AList.lookup_empty k

/-- A change of one shard that leaves all its other keys alone is a change at one key. -/
theorem lookup_modify {t : Sharded shardIndex V} {k : K} {shard : AList fun _ : K => V}
    {h : ∀ k' ∈ shard, shardIndex k' = shardIndex k}
    (hother : ∀ k', k' ≠ k → shard.lookup k' = (t.shards (shardIndex k)).lookup k') :
    (t.modify k shard h).lookup = Function.update t.lookup k (shard.lookup k) := by
  funext k'
  by_cases hk : k' = k
  · subst hk
    rw [Function.update_self, lookup, modify]
    exact congrArg (AList.lookup k') (Function.update_self _ _ _)
  · rw [Function.update_of_ne hk, lookup, lookup, modify]
    by_cases hi : shardIndex k' = shardIndex k
    · rw [hi]
      dsimp only
      rw [Function.update_self]
      exact hother k' hk
    · dsimp only
      rw [Function.update_of_ne hi]

/-- **A table of shards is one table**, key by key. -/
theorem lookup_insert (t : Sharded shardIndex V) (k : K) (v : V) :
    (t.insert k v).lookup = Function.update t.lookup k (some v) := by
  rw [insert, lookup_modify fun k' hk => AList.lookup_insert_ne hk, AList.lookup_insert]

theorem lookup_erase (t : Sharded shardIndex V) (k : K) :
    (t.erase k).lookup = Function.update t.lookup k none := by
  rw [erase, lookup_modify fun k' hk => AList.lookup_erase_ne hk, AList.lookup_erase]

end

/-! ## 2. One shard -/

/-- What a thread that goes through a shard finds. -/
def values (t : Sharded shardIndex V) (i : ι) : List V := (t.shards i).entries.map Sigma.snd

section

variable [DecidableEq K]

theorem mem_values_iff {t : Sharded shardIndex V} {i : ι} {v : V} :
    v ∈ t.values i ↔ ∃ k, shardIndex k = i ∧ t.lookup k = some v := by
  constructor
  · intro h
    obtain ⟨⟨k, v'⟩, hmem, rfl⟩ := List.mem_map.mp h
    have hk : k ∈ t.shards i := AList.mem_keys.mpr (List.mem_map.mpr ⟨_, hmem, rfl⟩)
    obtain rfl := t.placed i k hk
    exact ⟨k, rfl, AList.mem_lookup_iff.mpr hmem⟩
  · rintro ⟨k, rfl, h⟩
    exact List.mem_map.mpr ⟨⟨k, v⟩, AList.mem_lookup_iff.mp h, rfl⟩

/-- If a value knows its key, a shard lists it once. -/
theorem nodup_values {t : Sharded shardIndex V} {key : V → Option K}
    (hkey : ∀ k v, t.lookup k = some v → key v = some k) (i : ι) : (t.values i).Nodup := by
  refine List.Nodup.map_on ?_ (List.NodupKeys.nodup (t.shards i).nodupKeys)
  rintro ⟨k, v⟩ hk ⟨k', v'⟩ hk' (rfl : v = v')
  have hfound : ∀ {k : K}, (⟨k, v⟩ : Sigma fun _ : K => V) ∈ (t.shards i).entries →
      key v = some k := by
    intro k hmem
    obtain rfl := t.placed i k (AList.mem_keys.mpr (List.mem_map.mpr ⟨_, hmem, rfl⟩))
    exact hkey k v (AList.mem_lookup_iff.mpr hmem)
  obtain rfl : k = k' := Option.some.inj ((hfound hk).symm.trans (hfound hk'))
  rfl

end

/-! ## 3. All of it, while it changes -/

section

variable [DecidableEq K]

/-- What is known of a scan: `is` are the shards still to be read, `seen` what was found so far. -/
structure Seen (shardIndex : K → ι) (key : V → Option K) (is : List ι) (seen : List V) : Prop where
  shards : is.Nodup
  values : seen.Nodup
  /-- What was found belongs to shards that have been read. -/
  read : ∀ v ∈ seen, ∃ k, key v = some k ∧ shardIndex k ∉ is

omit [DecidableEq K] in
theorem Seen.mono {key key' : V → Option K} {is : List ι} {seen : List V}
    (h : Seen shardIndex key is seen) (hkeys : ∀ v k, key v = some k → key' v = some k) :
    Seen shardIndex key' is seen := by
  refine ⟨h.shards, h.values, fun v hv => ?_⟩
  obtain ⟨k, hk, hi⟩ := h.read v hv
  exact ⟨k, hkeys v k hk, hi⟩

theorem Seen.next {key : V → Option K} {t : Sharded shardIndex V} {i : ι} {is : List ι}
    {seen vs : List V} (h : Seen shardIndex key (i :: is) seen)
    (hkey : ∀ k v, t.lookup k = some v → key v = some k) (hvs : vs.Perm (t.values i)) :
    Seen shardIndex key is (seen ++ vs) := by
  have hplace : ∀ v ∈ vs, ∃ k, key v = some k ∧ shardIndex k = i := by
    intro v hv
    obtain ⟨k, hi, hk⟩ := mem_values_iff.mp (hvs.mem_iff.mp hv)
    exact ⟨k, hkey k v hk, hi⟩
  refine ⟨h.shards.of_cons, ?_, ?_⟩
  · refine List.Nodup.append h.values (hvs.nodup_iff.mpr (nodup_values hkey i)) ?_
    intro v hv hv'
    obtain ⟨k, hk, hi⟩ := h.read v hv
    obtain ⟨k', hk', hi'⟩ := hplace v hv'
    obtain rfl : k = k' := Option.some.inj (hk.symm.trans hk')
    exact hi (by rw [hi']; exact List.mem_cons_self)
  · intro v hv
    rcases List.mem_append.mp hv with hv | hv
    · obtain ⟨k, hk, hi⟩ := h.read v hv
      exact ⟨k, hk, fun hmem => hi (List.mem_cons_of_mem _ hmem)⟩
    · obtain ⟨k, hk, rfl⟩ := hplace v hv
      exact ⟨k, hk, (List.nodup_cons.mp h.shards).1⟩

variable {σ ℓ ε : Type*}

/-- What a scan of the shards `is` has found that went on while `ls` ran. -/
structure Scanned (step : σ → ℓ → Option (σ × List ε)) (table : σ → Sharded shardIndex V) (s : σ)
    (ls : List ℓ) (is : List ι) (seen all : List V) : Prop where
  nodup : all.Nodup
  kept : ∀ v ∈ seen, v ∈ all
  /-- What was there all the time has been found. -/
  complete : ∀ k v, shardIndex k ∈ is → Always step (fun s => (table s).lookup k = some v) s ls →
    v ∈ all
  /-- What has been found was there at some time. -/
  sound : ∀ v ∈ all, v ∈ seen ∨ ∃ k, ¬ Always step (fun s => (table s).lookup k ≠ some v) s ls

variable {step : σ → ℓ → Option (σ × List ε)} {table : σ → Sharded shardIndex V}

theorem Scanned.nil {key : V → Option K} {s : σ} {seen : List V} (h : Seen shardIndex key [] seen) :
    Scanned step table s [] [] seen seen :=
  ⟨h.values, fun _ hv => hv, fun _ _ hi => absurd hi List.not_mem_nil, fun _ hv => Or.inl hv⟩

/-- A step in which the scan reads nothing. -/
theorem Scanned.wait {s s' : σ} {l : ℓ} {ls : List ℓ} {is : List ι} {seen all : List V} {es : List ε}
    (hs : step s l = some (s', es)) (h : Scanned step table s' ls is seen all) :
    Scanned step table s (l :: ls) is seen all := by
  refine ⟨h.nodup, h.kept, fun k v hk ha => h.complete k v hk (ha.2 s' es hs), fun v hv => ?_⟩
  rcases h.sound v hv with hseen | ⟨k, hk⟩
  · exact Or.inl hseen
  · exact Or.inr ⟨k, fun ha => hk (ha.2 s' es hs)⟩

/-- A step in which it reads a shard. -/
theorem Scanned.read {s s' : σ} {l : ℓ} {ls : List ℓ} {i : ι} {is : List ι} {seen vs all : List V}
    {es : List ε} (hs : step s l = some (s', es)) (hvs : vs.Perm ((table s).values i))
    (h : Scanned step table s' ls is (seen ++ vs) all) :
    Scanned step table s (l :: ls) (i :: is) seen all := by
  refine ⟨h.nodup, fun v hv => h.kept v (List.mem_append_left _ hv), fun k v hk ha => ?_,
    fun v hv => ?_⟩
  · rcases List.mem_cons.mp hk with rfl | hk
    · exact h.kept v (List.mem_append_right _ (hvs.mem_iff.mpr (mem_values_iff.mpr ⟨k, rfl, ha.1⟩)))
    · exact h.complete k v hk (ha.2 s' es hs)
  · rcases h.sound v hv with hseen | ⟨k, hk⟩
    · rcases List.mem_append.mp hseen with hseen | hseen
      · exact Or.inl hseen
      · obtain ⟨k, -, hk⟩ := mem_values_iff.mp (hvs.mem_iff.mp hseen)
        exact Or.inr ⟨k, fun ha => ha.head hk⟩
    · exact Or.inr ⟨k, fun ha => hk (ha.2 s' es hs)⟩

variable (table) in
/-- **A scan of a table that changes meanwhile.** `pos` says which shards are still to be read and
    what has been found; any step may change the table, and one that is the scan's own reads the
    next shard in whatever order. If the scan is over in the end, it was over at some time, and
    had by then found what `Scanned` says. -/
theorem scan_spec (Inv : σ → Prop) {key : σ → V → Option K} {pos : σ → Option (List ι × List V)}
    {Quiet : ε → Prop}
    (hkey : ∀ {s}, Inv s → ∀ k v, (table s).lookup k = some v → key s v = some k)
    (hinv : ∀ {s l s' es}, Inv s → step s l = some (s', es) →
      Inv s' ∧ ∀ v k, key s v = some k → key s' v = some k)
    (hstep : ∀ {s l s' es i is seen}, pos s = some (i :: is, seen) → step s l = some (s', es) →
      (∀ e ∈ es, Quiet e) ∧ (pos s' = some (i :: is, seen) ∨
        ∃ vs, vs.Perm ((table s).values i) ∧ pos s' = some (is, seen ++ vs))) :
    ∀ {ls s s' τ is seen}, Inv s → Seen shardIndex (key s) is seen →
      pos s = some (is, seen) → run step s ls = some (s', τ) →
      (∀ i is' seen', pos s' ≠ some (i :: is', seen')) →
      ∃ ls₁ ls₂ s₁ τ₁ τ₂ all, ls = ls₁ ++ ls₂ ∧ τ = τ₁ ++ τ₂ ∧ run step s₁ ls₂ = some (s', τ₂) ∧
        Inv s₁ ∧ pos s₁ = some ([], all) ∧ (∀ e ∈ τ₁, Quiet e) ∧
        Scanned step table s ls₁ is seen all := by
  intro ls
  induction ls with
  | nil =>
    intro s s' τ is seen hi hseen hpos hr hend
    simp only [run, Option.some.injEq, Prod.mk.injEq] at hr
    obtain ⟨rfl, rfl⟩ := hr
    cases is with
    | nil => exact ⟨[], [], s, [], [], seen, rfl, rfl, rfl, hi, hpos, List.forall_mem_nil _, .nil hseen⟩
    | cons i is => exact absurd hpos (hend i is seen)
  | cons l ls ih =>
    intro s s' τ is seen hi hseen hpos hr hend
    cases is with
    | nil => exact ⟨[], l :: ls, s, [], τ, seen, rfl, rfl, hr, hi, hpos, List.forall_mem_nil _, .nil hseen⟩
    | cons i is =>
      obtain ⟨s₁, es, τ', hs, hr', rfl⟩ := run_cons hr
      obtain ⟨hi', hkeys⟩ := hinv hi hs
      obtain ⟨hquiet, hsame | ⟨vs, hvs, hread⟩⟩ := hstep hpos hs
      · obtain ⟨ls₁, ls₂, s₂, τ₁, τ₂, all, rfl, rfl, hr₂, hi₂, hpos₂, hq, hsc⟩ :=
          ih hi' (hseen.mono hkeys) hsame hr' hend
        exact ⟨l :: ls₁, ls₂, s₂, es ++ τ₁, τ₂, all, rfl, (List.append_assoc ..).symm, hr₂, hi₂,
          hpos₂, List.forall_mem_append.mpr ⟨hquiet, hq⟩, hsc.wait hs⟩
      · obtain ⟨ls₁, ls₂, s₂, τ₁, τ₂, all, rfl, rfl, hr₂, hi₂, hpos₂, hq, hsc⟩ :=
          ih hi' ((hseen.next (hkey hi) hvs).mono hkeys) hread hr' hend
        exact ⟨l :: ls₁, ls₂, s₂, es ++ τ₁, τ₂, all, rfl, (List.append_assoc ..).symm, hr₂, hi₂,
          hpos₂, List.forall_mem_append.mpr ⟨hquiet, hq⟩, hsc.read hs hvs⟩

end

end Sharded
end Lib
