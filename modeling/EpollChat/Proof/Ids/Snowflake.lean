import EpollChat.Ids.Snowflake
import EpollChat.Lib.Machine
import Mathlib.Tactic.Ring

/-!
# Message ids increase

The three fields of an id do not overlap, so ids are ordered as the triples are: by time,
then by generator, then by counter. `key` is that order as a number, and `advance_spec` is
the one fact about the clock: whatever it reads, the time of the generator does not go
back, and where it stands still the counter goes up. From there every id is above all ids
before it (`ids_increase`).
-/

namespace EpollChat
namespace SnowflakeIdGenerator

open Lib Machine

/-! ## 1. The fields of an id -/

/-- A number that fits its field is put beside the others, not over them. -/
theorem pack_toNat {delta workerId sequence : UInt64} (hd : delta.toNat < 2 ^ 42)
    (hw : workerId.toNat < 2 ^ 10) (hs : sequence.toNat < 2 ^ 12) :
    ((delta <<< kTimestampShift) ||| (workerId <<< kWorkerShift) ||| sequence).toNat
      = delta.toNat * 2 ^ 22 + workerId.toNat * 2 ^ 12 + sequence.toNat := by
  have h₁ : (delta <<< kTimestampShift).toNat = delta.toNat <<< 22 := by
    rw [UInt64.toNat_shiftLeft, show kTimestampShift.toNat % 64 = 22 from rfl, Nat.shiftLeft_eq]
    exact Nat.mod_eq_of_lt (by omega)
  have h₂ : (workerId <<< kWorkerShift).toNat = workerId.toNat <<< 12 := by
    rw [UInt64.toNat_shiftLeft, show kWorkerShift.toNat % 64 = 12 from rfl, Nat.shiftLeft_eq]
    exact Nat.mod_eq_of_lt (by omega)
  have hlow : workerId.toNat <<< 12 < 2 ^ 22 := by rw [Nat.shiftLeft_eq]; omega
  have hhigh : delta.toNat <<< 22 + workerId.toNat <<< 12
      = (delta.toNat * 2 ^ 10 + workerId.toNat) <<< 12 := by
    simp only [Nat.shiftLeft_eq]
    ring
  rw [UInt64.toNat_or, UInt64.toNat_or, h₁, h₂, ← Nat.shiftLeft_add_eq_or_of_lt hlow, hhigh,
    ← Nat.shiftLeft_add_eq_or_of_lt hs, Nat.shiftLeft_eq]
  ring

/-- The masks and shifts that take an id apart again. -/
def Issued.Decodes (e : Issued) : Prop :=
  e.delta = e.id >>> kTimestampShift ∧ e.workerId = (e.id >>> kWorkerShift) &&& kMaxWorkerId ∧
    e.sequence = e.id &&& kMaxSequence

theorem and_kMaxSequence (x : UInt64) : (x &&& kMaxSequence).toNat = x.toNat % 2 ^ 12 := by
  rw [UInt64.toNat_and, show kMaxSequence.toNat = 2 ^ 12 - 1 from rfl, Nat.and_two_pow_sub_one_eq_mod]

theorem and_kMaxWorkerId (x : UInt64) : (x &&& kMaxWorkerId).toNat = x.toNat % 2 ^ 10 := by
  rw [UInt64.toNat_and, show kMaxWorkerId.toNat = 2 ^ 10 - 1 from rfl, Nat.and_two_pow_sub_one_eq_mod]

theorem decodes_of_pack {e : Issued} (hw : e.workerId.toNat < 2 ^ 10)
    (hs : e.sequence.toNat < 2 ^ 12)
    (he : e.id.toNat = e.delta.toNat * 2 ^ 22 + e.workerId.toNat * 2 ^ 12 + e.sequence.toNat) :
    e.Decodes := by
  refine ⟨UInt64.toNat_inj.mp ?_, UInt64.toNat_inj.mp ?_, UInt64.toNat_inj.mp ?_⟩
  · rw [UInt64.toNat_shiftRight, show kTimestampShift.toNat % 64 = 22 from rfl,
      Nat.shiftRight_eq_div_pow, he]
    omega
  · rw [and_kMaxWorkerId, UInt64.toNat_shiftRight, show kWorkerShift.toNat % 64 = 12 from rfl,
      Nat.shiftRight_eq_div_pow, he]
    omega
  · rw [and_kMaxSequence, he]
    omega

/-! ## 2. One call -/

/-- The clock readings the ids are made for: after the epoch, and by less than `2 ^ 42`
    milliseconds. -/
def InEra (t : UInt64) : Prop := kEpochMs < t ∧ t.toNat < kEpochMs.toNat + 2 ^ 42

/-- Before the first call the time is 0. -/
structure Ok (g : SnowflakeIdGenerator) : Prop where
  worker : g.m_workerId.toNat < 2 ^ 10
  sequence : g.m_sequence.toNat < 2 ^ 12
  time : g.m_lastTs = 0 ∨ InEra g.m_lastTs

/-- Where the generator stands, as a number. -/
def key (g : SnowflakeIdGenerator) : Nat :=
  (g.m_lastTs.toNat - kEpochMs.toNat) * 2 ^ 22 + g.m_workerId.toNat * 2 ^ 12 + g.m_sequence.toNat

theorem waitNextMs_mem {lastTs ts : UInt64} : ∀ {readings : List UInt64},
    waitNextMs lastTs readings = some ts → ts ∈ readings ∧ lastTs < ts := by
  intro readings
  induction readings with
  | nil => exact fun h => absurd h (by simp [waitNextMs])
  | cons t readings ih =>
    intro h
    rw [waitNextMs] at h
    split at h
    · exact ⟨List.mem_cons_of_mem _ (ih h).1, (ih h).2⟩
    · next hle =>
      simp only [Option.some.injEq] at h
      subst h
      exact ⟨List.mem_cons_self, UInt64.not_le.mp hle⟩

/-- `waitNextMs` comes back as soon as some reading is late enough. -/
theorem waitNextMs_isSome {lastTs : UInt64} : ∀ {readings : List UInt64},
    (∃ t ∈ readings, lastTs < t) → (waitNextMs lastTs readings).isSome = true := by
  intro readings
  induction readings with
  | nil => rintro ⟨t, ht, -⟩; exact absurd ht (by simp)
  | cons r readings ih =>
    rintro ⟨t, ht, hlt⟩
    rw [waitNextMs]
    split
    · next hle =>
      rcases List.mem_cons.mp ht with rfl | ht
      · exact absurd hle (UInt64.not_le.mpr hlt)
      · exact ih ⟨t, ht, hlt⟩
    · rfl

theorem epoch_lt {t : UInt64} (h : InEra t) : kEpochMs.toNat < t.toNat := UInt64.lt_iff_toNat_lt.mp h.1

/-- A later time makes a larger key, whatever the counters are. -/
theorem key_lt_of_time {g g' : SnowflakeIdGenerator} (hg : g.Ok) (ht : g.m_lastTs < g'.m_lastTs)
    (hera : InEra g'.m_lastTs) (hw : g'.m_workerId = g.m_workerId) : g.key < g'.key := by
  have hs := hg.sequence
  have hlt : g.m_lastTs.toNat < g'.m_lastTs.toNat := UInt64.lt_iff_toNat_lt.mp ht
  have he := epoch_lt hera
  unfold key
  rw [hw]
  omega

/-- Within one millisecond the counter decides. -/
theorem key_lt_of_sequence {g g' : SnowflakeIdGenerator} (ht : g'.m_lastTs = g.m_lastTs)
    (hw : g'.m_workerId = g.m_workerId) (hs : g.m_sequence.toNat < g'.m_sequence.toNat) :
    g.key < g'.key := by
  unfold key
  rw [ht, hw]
  omega

/-- **Whatever the clock reads, the generator moves on.** -/
theorem advance_spec {g g' : SnowflakeIdGenerator} {now : UInt64} {readings : List UInt64}
    (hg : g.Ok) (hnow : InEra now) (hreadings : ∀ t ∈ readings, InEra t)
    (h : g.advance now readings = some g') : g'.Ok ∧ InEra g'.m_lastTs ∧ g.key < g'.key := by
  unfold advance at h
  generalize hts : (if now < g.m_lastTs then g.m_lastTs else now) = ts at h
  dsimp only at h
  split at h
  · next hsame =>
    -- The clock stands still: the generator is past its first call, and the counter goes up.
    have hera : InEra g.m_lastTs := by
      rcases hg.time with h0 | hera
      · rw [hsame, h0, if_neg UInt64.not_lt_zero] at hts
        exact absurd (hts ▸ hnow.1) (by decide)
      · exact hera
    have hseq := hg.sequence
    have hnext : ((g.m_sequence + 1) &&& kMaxSequence).toNat = (g.m_sequence.toNat + 1) % 2 ^ 12 := by
      rw [and_kMaxSequence, UInt64.toNat_add, show (1 : UInt64).toNat = 1 from rfl,
        Nat.mod_eq_of_lt (show g.m_sequence.toNat + 1 < 2 ^ 64 by omega)]
    split at h
    · next hzero =>
      -- The counter is used up: the time moves instead.
      obtain ⟨ts', hwait, rfl⟩ := Option.map_eq_some_iff.mp h
      obtain ⟨hmem, hlt⟩ := waitNextMs_mem hwait
      have hera' := hreadings ts' hmem
      refine ⟨⟨hg.worker, ?_, Or.inr hera'⟩, hera', key_lt_of_time hg hlt hera' rfl⟩
      show ((g.m_sequence + 1) &&& kMaxSequence).toNat < 2 ^ 12
      rw [hzero]
      decide
    · next hpos =>
      simp only [Option.some.injEq] at h
      subst h
      have hne : (g.m_sequence.toNat + 1) % 2 ^ 12 ≠ 0 := by
        rw [← hnext]
        exact fun h0 => hpos (UInt64.toNat_inj.mp h0)
      rw [hsame]
      refine ⟨⟨hg.worker, ?_, Or.inr hera⟩, hera, key_lt_of_sequence rfl rfl ?_⟩
      · show ((g.m_sequence + 1) &&& kMaxSequence).toNat < 2 ^ 12
        rw [hnext]
        exact Nat.mod_lt _ (by decide)
      · show g.m_sequence.toNat < ((g.m_sequence + 1) &&& kMaxSequence).toNat
        rw [hnext]
        omega
  · next hmoved =>
    simp only [Option.some.injEq] at h
    subst h
    have hlt : ¬ now < g.m_lastTs := fun hlt => hmoved (by rw [← hts, if_pos hlt])
    rw [if_neg hlt] at hts
    subst hts
    refine ⟨⟨hg.worker, show (0 : UInt64).toNat < 2 ^ 12 by decide, Or.inr hnow⟩, hnow, key_lt_of_time hg ?_ hnow rfl⟩
    rw [UInt64.lt_iff_toNat_lt]
    rw [UInt64.lt_iff_toNat_lt] at hlt
    have hne : now.toNat ≠ g.m_lastTs.toNat := fun h => hmoved (UInt64.toNat_inj.mp h)
    show g.m_lastTs.toNat < now.toNat
    omega

theorem advance_isSome {g : SnowflakeIdGenerator} {readings : List UInt64} (now : UInt64)
    (h : ∃ t ∈ readings, g.m_lastTs < t) : (g.advance now readings).isSome = true := by
  unfold advance
  generalize (if now < g.m_lastTs then g.m_lastTs else now) = ts
  dsimp only
  split
  · split
    · rw [Option.isSome_map]
      exact waitNextMs_isSome h
    · rfl
  · rfl

/-- The id is the key, and gives its three numbers back. -/
theorem issue_spec {g : SnowflakeIdGenerator} (hg : g.Ok) (hera : InEra g.m_lastTs) :
    g.issue.id.toNat = g.key ∧ g.issue.Decodes ∧ 2 ^ 22 ≤ g.key := by
  have he := epoch_lt hera
  have hlt := hera.2
  have hdelta : g.issue.delta.toNat = g.m_lastTs.toNat - kEpochMs.toNat := by
    simp only [issue, if_pos hera.1]
    exact UInt64.toNat_sub_of_le _ _ (UInt64.le_iff_toNat_le.mpr (by omega))
  have hd : g.issue.delta.toNat < 2 ^ 42 := by omega
  have hid := pack_toNat hd hg.worker hg.sequence
  refine ⟨?_, decodes_of_pack hg.worker hg.sequence hid, ?_⟩
  · rw [key, ← hdelta]
    exact hid
  · unfold key
    omega

/-! ## 3. Every run -/

/-- What is kept: the ids so far are in order, none is above the generator's own place,
    and each can be taken apart. -/
structure Increasing (g : SnowflakeIdGenerator) (τ : List Issued) : Prop where
  ok : g.Ok
  below : ∀ e ∈ τ, e.id.toNat ≤ g.key
  sorted : τ.Pairwise fun e e' => e.id < e'.id
  positive : ∀ e ∈ τ, e.id ≠ 0
  decodes : ∀ e ∈ τ, e.Decodes

theorem Increasing.nextId {g g' : SnowflakeIdGenerator} {τ es : List Issued} {call : List UInt64}
    (hi : Increasing g τ) (hclock : ∀ t ∈ call, InEra t) (h : nextId g call = some (g', es)) :
    Increasing g' (τ ++ es) := by
  cases call with
  | nil => exact absurd h (by simp [SnowflakeIdGenerator.nextId])
  | cons now readings =>
    obtain ⟨g₁, hadv, heq⟩ := Option.map_eq_some_iff.mp h
    simp only [Prod.mk.injEq] at heq
    obtain ⟨rfl, rfl⟩ := heq
    obtain ⟨hok, hera, hkey⟩ := advance_spec hi.ok (hclock now List.mem_cons_self)
      (fun t ht => hclock t (List.mem_cons_of_mem _ ht)) hadv
    obtain ⟨hid, hdec, hpos⟩ := issue_spec hok hera
    refine ⟨hok, ?_, ?_, ?_, ?_⟩
    · intro e he
      rcases List.mem_append.mp he with he | he
      · exact le_of_lt (lt_of_le_of_lt (hi.below e he) hkey)
      · rw [List.mem_singleton.mp he, hid]
    · refine List.pairwise_append.mpr ⟨hi.sorted, List.pairwise_singleton _ _, ?_⟩
      intro e he e' he'
      rw [List.mem_singleton.mp he', UInt64.lt_iff_toNat_lt, hid]
      exact lt_of_le_of_lt (hi.below e he) hkey
    · intro e he h0
      rcases List.mem_append.mp he with he | he
      · exact hi.positive e he h0
      · rw [List.mem_singleton.mp he] at h0
        rw [h0] at hid
        exact absurd hid (by rw [show (0 : UInt64).toNat = 0 from rfl]; omega)
    · intro e he
      rcases List.mem_append.mp he with he | he
      · exact hi.decodes e he
      · rw [List.mem_singleton.mp he]; exact hdec

theorem create_ok (hash : UInt64) : (create hash).Ok := by
  refine ⟨?_, show (0 : UInt64).toNat < 2 ^ 12 by decide, Or.inl rfl⟩
  show (hash &&& kMaxWorkerId).toNat < 2 ^ 10
  rw [and_kMaxWorkerId]
  exact Nat.mod_lt _ (by decide)

/-- **Ids strictly increase, are never 0, and can be taken apart**, for every history of
    the clock within its era; and a call that is given one reading after the generator's
    time comes back. -/
theorem ids_increase {hash : UInt64} {calls : List (List UInt64)} {g : SnowflakeIdGenerator}
    {issued : List Issued} (hclock : ∀ call ∈ calls, ∀ t ∈ call, InEra t)
    (hr : run nextId (create hash) calls = some (g, issued)) :
    (issued.Pairwise fun e e' => e.id < e'.id) ∧ (∀ e ∈ issued, e.id ≠ 0) ∧
      (∀ e ∈ issued, e.Decodes) ∧
      ∀ now readings, (∃ t ∈ readings, g.m_lastTs < t) → (nextId g (now :: readings)).isSome = true := by
  have hinv : Increasing g ([] ++ issued) := by
    refine run_inv_of_meets (P := fun _ call => ∀ t ∈ call, InEra t) Increasing
      (fun hi hp hs => hi.nextId hp hs)
      ⟨create_ok hash, by simp, List.Pairwise.nil, by simp, by simp⟩ ?_ hr
    exact meets_of_labels hclock
  refine ⟨hinv.sorted, hinv.positive, hinv.decodes, ?_⟩
  intro now readings hlater
  rw [nextId, Option.isSome_map]
  exact advance_isSome now hlater

/-- A clock that stands still, goes back and moves on. -/
theorem ids_increase_three : ∃ g issued,
    run nextId (create 12345)
      [[1704067200005], [1704067200005], [1704067200002], [1704067200006]] = some (g, issued) ∧
    (issued.Pairwise fun e e' => e.id < e'.id) ∧ issued.length = 4 := by
  obtain ⟨⟨g, issued⟩, hr, hlen⟩ := Option.map_eq_some_iff.mp (show (run nextId (create 12345)
    [[1704067200005], [1704067200005], [1704067200002], [1704067200006]]).map
      (fun p => p.2.length) = some 4 from rfl)
  refine ⟨g, issued, hr, (ids_increase ?_ hr).1, hlen⟩
  simp [InEra, kEpochMs]

end SnowflakeIdGenerator
end EpollChat
