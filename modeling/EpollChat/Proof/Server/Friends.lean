import EpollChat.Server.Friends

/-!
# Mutual friendship

Two statements without a transaction keep the table symmetric exactly when they go together:
the pair is in the table already, both rows go in, or neither does (`friends_mutual_iff`). One
failed or ignored execution beside one that inserts its row leaves a friend who has no friend,
and the caller is told `false` if the other one failed (`half_added`).
-/

namespace EpollChat
namespace Friends

open Lib Machine

/-! ## 1. One call -/

theorem insertIgnore_done {t : Table} {u f : Bytes} (h : (u, f) ∉ t) :
    insertIgnore t u f .done = (⟨true, 1⟩, t ++ [(u, f)]) := by
  rw [insertIgnore, if_neg (by simpa using h)]

theorem insertIgnore_present {t : Table} {u f : Bytes} (h : (u, f) ∈ t) (o : Outcome) :
    (insertIgnore t u f o).2 = t ∧
      ((insertIgnore t u f o).1.ok = true → (insertIgnore t u f o).1.affectedRows = 0) := by
  cases o with
  | done =>
    rw [insertIgnore, if_pos (by simpa using h)]
    exact ⟨rfl, fun _ => rfl⟩
  | ignored => exact ⟨rfl, fun _ => rfl⟩
  | failed => exact ⟨rfl, fun h => absurd h (by simp [insertIgnore])⟩

/-- An execution that does not insert leaves the table and reports no row, or an error. -/
theorem insertIgnore_void {t : Table} {u f : Bytes} {o : Outcome} (h : o ≠ .done) :
    (insertIgnore t u f o).2 = t ∧
      ((insertIgnore t u f o).1.ok = true → (insertIgnore t u f o).1.affectedRows = 0) := by
  cases o with
  | done => exact absurd rfl h
  | ignored => exact ⟨rfl, fun _ => rfl⟩
  | failed => exact ⟨rfl, fun h => absurd h (by simp [insertIgnore])⟩

/-- No row reported by either execution: the call fails. -/
theorem added_eq_false {e₁ e₂ : Executed} (h₁ : e₁.ok = true → e₁.affectedRows = 0)
    (h₂ : e₂.ok = true → e₂.affectedRows = 0) : added e₁ e₂ = false := by
  cases hok₁ : e₁.ok with
  | false => simp [added, hok₁]
  | true =>
    cases hok₂ : e₂.ok with
    | false => simp [added, hok₁, hok₂]
    | true => simp [added, hok₁, hok₂, h₁ hok₁, h₂ hok₂]

theorem Symmetric.add {t : Table} (h : Symmetric t) (u f : Bytes) :
    Symmetric (t ++ [(u, f), (f, u)]) := by
  intro a b hab
  rcases List.mem_append.mp hab with hab | hab
  · exact List.mem_append_left _ (h a b hab)
  · refine List.mem_append_right _ ?_
    simp only [List.mem_cons, Prod.mk.injEq, List.not_mem_nil, or_false] at hab ⊢
    rcases hab with ⟨rfl, rfl⟩ | ⟨rfl, rfl⟩
    · exact Or.inr ⟨rfl, rfl⟩
    · exact Or.inl ⟨rfl, rfl⟩

/-- One row more, and not its mirror image. -/
theorem not_symmetric_concat {t : Table} {u f : Bytes} (hne : u ≠ f) (h : (f, u) ∉ t) :
    ¬ Symmetric (t ++ [(u, f)]) := by
  intro hs
  rcases List.mem_append.mp (hs u f (List.mem_append_right _ List.mem_cons_self)) with hm | hm
  · exact h hm
  · simp only [List.mem_cons, Prod.mk.injEq, List.not_mem_nil, or_false] at hm
    exact hne hm.2

/-- What is asked of one call: the table stays symmetric, and is as it was if the call says
    `false`. -/
def Mutual (before : Table) (result : Bool) (after : Table) : Prop :=
  Symmetric after ∧ (result = false → after = before)

/-- The two executions go together, or the pair is in the table already. -/
def GoTogether (t : Table) (user friendName : Bytes) (o₁ o₂ : Outcome) : Prop :=
  (user, friendName) ∈ t ∨ (o₁ = .done ↔ o₂ = .done)

instance (t : Table) (user friendName : Bytes) (o₁ o₂ : Outcome) :
    Decidable (GoTogether t user friendName o₁ o₂) := inferInstanceAs (Decidable (_ ∨ _))

theorem addFriendToDB_void {t : Table} {u f : Bytes} {o₁ o₂ : Outcome} {e₁ e₂ : Executed}
    (h₁ : insertIgnore t u f o₁ = (e₁, t)) (h₂ : insertIgnore t f u o₂ = (e₂, t))
    (hok₁ : e₁.ok = true → e₁.affectedRows = 0) (hok₂ : e₂.ok = true → e₂.affectedRows = 0) :
    addFriendToDB t u f true o₁ o₂ = (false, t) := by
  simp only [addFriendToDB, if_true, h₁, h₂, added_eq_false hok₁ hok₂]

/-- **One call**, on a symmetric table and two different names. -/
theorem addFriendToDB_mutual_iff {t : Table} {u f : Bytes} {o₁ o₂ : Outcome}
    (hs : Symmetric t) (hne : u ≠ f) :
    Mutual t (addFriendToDB t u f true o₁ o₂).1 (addFriendToDB t u f true o₁ o₂).2 ↔
      GoTogether t u f o₁ o₂ := by
  by_cases hin : (u, f) ∈ t
  · -- the pair is there in both directions: nothing changes
    obtain ⟨ht₁, hok₁⟩ := insertIgnore_present hin o₁
    obtain ⟨ht₂, hok₂⟩ := insertIgnore_present (hs u f hin) o₂
    rw [addFriendToDB_void (Prod.ext rfl ht₁) (Prod.ext rfl ht₂) hok₁ hok₂]
    exact ⟨fun _ => Or.inl hin, fun _ => ⟨hs, fun _ => rfl⟩⟩
  · have hin' : (f, u) ∉ t := fun h => hin (hs f u h)
    have hgo : GoTogether t u f o₁ o₂ ↔ (o₁ = .done ↔ o₂ = .done) :=
      ⟨fun h => h.resolve_left hin, Or.inr⟩
    rw [hgo]
    by_cases h₁ : o₁ = .done
    · subst h₁
      have hin₁ : (f, u) ∉ t ++ [(u, f)] := by
        intro h
        rcases List.mem_append.mp h with h | h
        · exact hin' h
        · simp only [List.mem_cons, Prod.mk.injEq, List.not_mem_nil, or_false] at h
          exact hne h.2
      by_cases h₂ : o₂ = .done
      · subst h₂
        have hcall : addFriendToDB t u f true .done .done = (true, t ++ [(u, f), (f, u)]) := by
          simp [addFriendToDB, insertIgnore_done hin, insertIgnore_done hin₁, added]
        rw [hcall]
        exact ⟨fun _ => Iff.rfl, fun _ => ⟨hs.add u f, fun h => absurd h (by simp)⟩⟩
      · have hafter : (addFriendToDB t u f true .done o₂).2 = t ++ [(u, f)] := by
          simp [addFriendToDB, insertIgnore_done hin, (insertIgnore_void h₂).1]
        rw [hafter]
        exact ⟨fun h => absurd h.1 (not_symmetric_concat hne hin'),
          fun h => absurd (h.mp rfl) h₂⟩
    · obtain ⟨ht₁, hok₁⟩ := insertIgnore_void (t := t) (u := u) (f := f) h₁
      by_cases h₂ : o₂ = .done
      · subst h₂
        have hafter : (addFriendToDB t u f true o₁ .done).2 = t ++ [(f, u)] := by
          simp [addFriendToDB, ht₁, insertIgnore_done hin']
        rw [hafter]
        exact ⟨fun h => absurd h.1 (not_symmetric_concat (Ne.symm hne) hin),
          fun h => absurd (h.mpr rfl) h₁⟩
      · obtain ⟨ht₂, hok₂⟩ := insertIgnore_void (t := t) (u := f) (f := u) h₂
        rw [addFriendToDB_void (Prod.ext rfl ht₁) (Prod.ext rfl ht₂) hok₁ hok₂]
        exact ⟨fun _ => ⟨fun h => absurd h h₁, fun h => absurd h h₂⟩, fun _ => ⟨hs, fun _ => rfl⟩⟩

/-! ## 2. One request -/

/-- A request that gets to `addFriendToDB` makes one call of it; any other leaves the table. -/
theorem step_cases {s s' : State} {r : Request} {es : List Event} (h : step s r = some (s', es)) :
    (r.Calls s ∧ ∃ c rest, c = addFriendToDB s.friends r.accountID r.targetFriend r.prepared r.first r.second ∧
      s' = { s with friends := c.2 } ∧ es = .called s.friends c.1 c.2 :: rest ∧
      (∀ before result after, Event.called before result after ∉ rest) ∧
      (c.1 = false → rest = r.answer alreadyFriends)) ∨
    (¬ r.Calls s ∧ s' = s ∧ ∀ before result after, Event.called before result after ∉ es) := by
  have hanswer : ∀ text before result after,
      Event.called before result after ∉ r.answer text := by
    intro text before result after hm
    unfold Request.answer at hm
    split at hm
    · exact absurd hm (by simp)
    · exact absurd hm (by simp)
  simp only [step] at h
  split at h
  · next hnil =>
    obtain ⟨rfl, rfl⟩ := Prod.mk.inj (Option.some.inj h)
    exact Or.inr ⟨fun hc => hc.1 hnil, rfl, by simp⟩
  · next hnil =>
    split at h
    · next hself =>
      obtain ⟨rfl, rfl⟩ := Prod.mk.inj (Option.some.inj h)
      exact Or.inr ⟨fun hc => hc.2.1 hself, rfl, by simp⟩
    · next hself =>
      split at h
      · next hq =>
        obtain ⟨rfl, rfl⟩ := Prod.mk.inj (Option.some.inj h)
        refine Or.inr ⟨fun hc => ?_, rfl, hanswer _⟩
        rw [hc.2.2.1] at hq
        exact absurd hq (by simp)
      · next hq =>
        split at h
        · next hex =>
          obtain ⟨rfl, rfl⟩ := Prod.mk.inj (Option.some.inj h)
          refine Or.inr ⟨fun hc => ?_, rfl, hanswer _⟩
          rw [hc.2.2.2] at hex
          exact absurd hex (by simp)
        · next hex =>
          obtain ⟨rfl, rfl⟩ := Prod.mk.inj (Option.some.inj h)
          refine Or.inl ⟨⟨hnil, hself, by simpa using hq, by simpa using hex⟩, _, _, rfl, rfl, rfl, ?_, ?_⟩
          · intro before result after hm
            split at hm
            · simp only [List.mem_cons, reduceCtorEq, false_or] at hm
              exact hanswer _ _ _ _ hm
            · exact hanswer _ _ _ _ hm
          · intro hc
            rw [hc]
            rfl

/-- A call that says `false` is answered with a failure, and no cache entry is touched. -/
theorem refused {s s' : State} {r : Request} {es : List Event} {before after : Table}
    (h : step s r = some (s', es)) (hc : .called before false after ∈ es) :
    es = .called before false after :: r.answer alreadyFriends := by
  rcases step_cases h with ⟨-, c, rest, -, -, rfl, hno, hfalse⟩ | ⟨-, -, hno⟩
  · rcases List.mem_cons.mp hc with heq | hm
    · obtain ⟨rfl, hres, rfl⟩ := Event.called.inj heq
      rw [hfalse hres.symm, ← hres]
    · exact absurd hm (hno _ _ _)
  · exact absurd hc (hno _ _ _)

/-! ## 3. Every run -/

/-- A request's two executions go together, if it comes to them. -/
def PairWhole (s : State) (r : Request) : Prop :=
  r.Calls s → r.prepared = true → GoTogether s.friends r.accountID r.targetFriend r.first r.second

instance (s : State) (r : Request) : Decidable (PairWhole s r) :=
  inferInstanceAs (Decidable (_ → _ → _))

/-- Every call of the trace is as it should be. -/
def AllMutual (τ : List Event) : Prop :=
  ∀ before result after, .called before result after ∈ τ → Mutual before result after

theorem allMutual_append {τ τ' : List Event} : AllMutual (τ ++ τ') ↔ AllMutual τ ∧ AllMutual τ' := by
  constructor
  · intro h
    exact ⟨fun b r a hm => h b r a (List.mem_append_left _ hm),
      fun b r a hm => h b r a (List.mem_append_right _ hm)⟩
  · intro h b r a hm
    rcases List.mem_append.mp hm with hm | hm
    · exact h.1 b r a hm
    · exact h.2 b r a hm

/-- One request, on a symmetric table: its call is as it should be exactly if its executions
    go together, and then the table is still symmetric. -/
theorem allMutual_step {s s' : State} {r : Request} {es : List Event} (hs : Symmetric s.friends)
    (h : step s r = some (s', es)) :
    (AllMutual es ↔ PairWhole s r) ∧ (PairWhole s r → Symmetric s'.friends) := by
  rcases step_cases h with ⟨hcalls, c, rest, rfl, rfl, rfl, hno, -⟩ | ⟨hcalls, rfl, hno⟩
  · have hiff : AllMutual (.called s.friends (addFriendToDB s.friends r.accountID r.targetFriend
          r.prepared r.first r.second).1 (addFriendToDB s.friends r.accountID r.targetFriend
          r.prepared r.first r.second).2 :: rest) ↔
        Mutual s.friends (addFriendToDB s.friends r.accountID r.targetFriend r.prepared r.first
          r.second).1 (addFriendToDB s.friends r.accountID r.targetFriend r.prepared r.first
          r.second).2 := by
      refine ⟨fun ha => ha _ _ _ List.mem_cons_self, fun hm b res a hmem => ?_⟩
      rcases List.mem_cons.mp hmem with heq | hmem
      · obtain ⟨rfl, rfl, rfl⟩ := Event.called.inj heq
        exact hm
      · exact absurd hmem (hno _ _ _)
    have hmain : Mutual s.friends (addFriendToDB s.friends r.accountID r.targetFriend r.prepared
        r.first r.second).1 (addFriendToDB s.friends r.accountID r.targetFriend r.prepared r.first
        r.second).2 ↔ PairWhole s r := by
      cases hp : r.prepared with
      | false =>
        refine ⟨fun _ _ hp' => absurd (hp.symm.trans hp') (by simp), fun _ => ?_⟩
        exact ⟨hs, fun _ => rfl⟩
      | true =>
        rw [addFriendToDB_mutual_iff hs (Ne.symm hcalls.2.1)]
        exact ⟨fun hg _ _ => hg, fun hw => hw hcalls hp⟩
    exact ⟨hiff.trans hmain, fun hw => (hmain.mpr hw).1⟩
  · exact ⟨⟨fun _ hc => absurd hc hcalls, fun _ b res a hm => absurd hm (hno b res a)⟩, fun _ => hs⟩

/-- **Friendship stays mutual, exactly when the two statements go together.** In a run of requests
    from a symmetric table, every call of `addFriendToDB` leaves the table symmetric, and as it
    was if it says `false`, if and only if in every request that comes to the two executions
    the pair is in the table already, or both insert their row, or neither does. -/
theorem friends_mutual_iff : ∀ {rs : List Request} {s s' : State} {τ : List Event},
    Symmetric s.friends → run step s rs = some (s', τ) →
      (AllMutual τ ↔ Meets step PairWhole s rs) := by
  intro rs
  induction rs with
  | nil =>
    intro s s' τ _ hr
    obtain ⟨-, rfl⟩ := Prod.mk.inj (Option.some.inj hr)
    exact ⟨fun _ => trivial, fun _ b res a hm => absurd hm List.not_mem_nil⟩
  | cons r rs ih =>
    intro s s' τ hs hr
    obtain ⟨s₁, es, τ', hstep, hr', rfl⟩ := run_cons hr
    obtain ⟨hiff, hkeep⟩ := allMutual_step hs hstep
    rw [allMutual_append, hiff, meets_cons hstep]
    exact and_congr_right fun hw => ih (hkeep hw) hr'

/-- `b` is added by `a`, then asked back, then both executions of a third request come to nothing. -/
def threeRequests : List Request :=
  [{ accountID := ascii "a", body := objectText [(ascii "friend", ascii "b")] },
    { accountID := ascii "b", body := objectText [(ascii "friend", ascii "a")], second := .failed },
    { accountID := ascii "a", body := objectText [(ascii "friend", ascii "c")], first := .failed,
      second := .ignored }]

theorem friends_mutual_three : ∃ s' τ,
    run step ⟨[ascii "a", ascii "b", ascii "c"], []⟩ threeRequests = some (s', τ) ∧
    s'.friends = [(ascii "a", ascii "b"), (ascii "b", ascii "a")] ∧ AllMutual τ := by
  obtain ⟨⟨s', τ⟩, hr⟩ := Option.isSome_iff_exists.mp (show (run step
    ⟨[ascii "a", ascii "b", ascii "c"], []⟩ threeRequests).isSome = true from rfl)
  have hnil : Symmetric [] := fun u f h => absurd h List.not_mem_nil
  refine ⟨s', τ, hr, ?_, (friends_mutual_iff hnil hr).mpr (by decide)⟩
  obtain ⟨rfl, -⟩ := Prod.mk.inj (Option.some.inj hr)
  decide

/-- **Half added.** The first execution inserts its row, the second fails: the client is told
    that the two are friends already, and one of them is. -/
theorem half_added : Symmetric [] ∧ ∃ s' τ,
    run step ⟨[ascii "a", ascii "b"], []⟩
      [{ accountID := ascii "a", body := objectText [(ascii "friend", ascii "b")],
         second := .failed }] = some (s', τ) ∧
    τ = [.called [] false [(ascii "a", ascii "b")], .reply alreadyFriends] ∧
    ¬ Symmetric [(ascii "a", ascii "b")] ∧ ¬ AllMutual τ := by
  have hasym : ¬ Symmetric [(ascii "a", ascii "b")] := by
    intro h
    exact absurd (h _ _ List.mem_cons_self) (by decide)
  refine ⟨fun u f h => absurd h List.not_mem_nil, _, _, rfl, rfl, hasym, fun h => ?_⟩
  exact absurd (h _ _ _ List.mem_cons_self).2 (by decide)

end Friends
end EpollChat
