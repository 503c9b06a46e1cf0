import EpollChat.Server.Sessions

/-!
# Who is reachable, and as whom

The online table and the `accountID` of a context are two records of one fact, kept by
separate code. `handleDisconnect` erases the entry of the context's account without asking
whose entry it is: an older connection of a user takes the user offline when it goes
(`older_connection_goes`). `setOnlineUser` adds an entry without asking whether the context
had one: a connection that identifies itself again is found under both names
(`two_names`).

Each of the two is the only way to break its half of the correspondence:
`connected_user_reachable_iff` and `routed_to_own_account_iff` are exact.
-/

namespace EpollChat
namespace Sessions

open Lib Machine

/-! ## 1. The properties and their conditions -/

/-- The account a context belongs to now. -/
def account (r : Registry) (c : Nat) : Option Bytes := (r.contexts c).map ClientContext.accountID

/-- The connection that identified itself as `u` last, if it is still there and still `u`'s,
    is the one `getOnlineCtx` finds. -/
def UsersReachable (s : State) : Prop :=
  ∀ u c, u ≠ [] → s.lastBound u = some c → Registered s.registry c →
    account s.registry c = some u → s.registry.getOnlineCtx u = some c

/-- The entry a disconnect erases is the leaving connection's own, or nobody's who is still
    there under that account. -/
def ErasesOwnEntry (s : State) : Label → Prop
  | .disconnect fd => ∀ c ∈ s.registry.clients fd, ∀ u ∈ account s.registry c,
      ∀ c' ∈ s.registry.users u,
        c' = c ∨ ¬ Registered s.registry c' ∨ account s.registry c' ≠ some u
  | _ => True

/-- A registered connection that `getOnlineCtx` finds under `u` belongs to `u`. -/
def RoutesRight (s : State) : Prop :=
  ∀ u c, s.registry.getOnlineCtx u = some c → Registered s.registry c →
    account s.registry c = some u

/-- A registered connection that takes a new account is not found under its old one. -/
def LeavesNoEntry (r : Registry) (c : Nat) (u : Bytes) : Prop :=
  Registered r c → ∀ v ∈ account r c, v = u ∨ r.users v ≠ some c

def RebindsClean (s : State) : Label → Prop
  | .bind c senderID => senderID = [] ∨ LeavesNoEntry s.registry c senderID
  | .login c username => LeavesNoEntry s.registry c username
  | _ => True

instance (s : State) : DecidablePred (ErasesOwnEntry s)
  | .disconnect _ => inferInstanceAs (Decidable (∀ _ ∈ _, ∀ _ ∈ _, ∀ _ ∈ _, _ ∨ _ ∨ _))
  | .accept .. | .bind .. | .login .. | .destroy .. => isTrue trivial

instance (r : Registry) (c : Nat) (u : Bytes) : Decidable (LeavesNoEntry r c u) :=
  inferInstanceAs (Decidable (_ → ∀ _ ∈ _, _ ∨ _))

instance (s : State) : DecidablePred (RebindsClean s)
  | .bind _ _ => inferInstanceAs (Decidable (_ ∨ _))
  | .login _ _ => inferInstanceAs (Decidable (LeavesNoEntry _ _ _))
  | .accept .. | .disconnect .. | .destroy .. => isTrue trivial

/-! ## 2. One step -/

/-- What a step can do. -/
theorem step_cases {s s' : State} {l : Label} {es : List Unit} (h : step s l = some (s', es)) :
    (∃ fd, l = .accept fd ∧ s.registry.clients fd = none ∧ s' = { s with
      registry := (s.registry.makeCtx fd).addClientCtx s.registry.nextCtx fd }) ∨
    (∃ c u ctx, (l = .bind c u ∧ u ≠ [] ∨ l = .login c u) ∧ s.registry.contexts c = some ctx ∧
      s' = identify s c u) ∨
    (∃ fd c ctx, l = .disconnect fd ∧ s.registry.clients fd = some c ∧
      s.registry.contexts c = some ctx ∧ s' = { s with registry := s.registry.unregister fd ctx }) ∨
    (∃ c, ¬ Registered s.registry c ∧ s' = { s with registry := s.registry.destroyCtx c }) ∨
    s' = s := by
  cases l with
  | accept fd =>
    simp only [step] at h
    split at h
    · next hfree =>
      simp only [Option.some.injEq, Prod.mk.injEq] at h
      exact Or.inl ⟨fd, rfl, hfree, h.1.symm⟩
    · exact absurd h (by simp)
  | bind c u =>
    simp only [step] at h
    split at h
    · exact absurd h (by simp)
    · next ctx hctx =>
      simp only [Option.some.injEq, Prod.mk.injEq] at h
      obtain ⟨rfl, -⟩ := h
      by_cases hu : u = []
      · rw [if_pos hu]
        exact Or.inr (Or.inr (Or.inr (Or.inr rfl)))
      · rw [if_neg hu]
        exact Or.inr (Or.inl ⟨c, u, ctx, Or.inl ⟨rfl, hu⟩, hctx, rfl⟩)
  | login c u =>
    simp only [step] at h
    split at h
    · exact absurd h (by simp)
    · next ctx hctx =>
      rw [if_pos (by simp [Registry.isCurrentSessionValid])] at h
      simp only [Option.some.injEq, Prod.mk.injEq] at h
      exact Or.inr (Or.inl ⟨c, u, ctx, Or.inr rfl, hctx, h.1.symm⟩)
  | disconnect fd =>
    simp only [step, Registry.getClientCtxByFd] at h
    split at h
    · simp only [Option.some.injEq, Prod.mk.injEq] at h
      exact Or.inr (Or.inr (Or.inr (Or.inr h.1.symm)))
    · next c hc =>
      split at h
      · exact absurd h (by simp)
      · next ctx hctx =>
        simp only [Option.some.injEq, Prod.mk.injEq] at h
        exact Or.inr (Or.inr (Or.inl ⟨fd, c, ctx, rfl, hc, hctx, h.1.symm⟩))
  | destroy c =>
    simp only [step] at h
    split at h
    · exact absurd h (by simp)
    · next hreg =>
      simp only [Option.some.injEq, Prod.mk.injEq] at h
      exact Or.inr (Or.inr (Or.inr (Or.inl ⟨c, hreg, h.1.symm⟩)))

/-- The tables are about contexts that have been made. -/
structure Wf (s : State) : Prop where
  keyed : ∀ fd c, s.registry.clients fd = some c →
    ∃ ctx, s.registry.contexts c = some ctx ∧ ctx.fd = fd
  made : ∀ c, s.registry.nextCtx ≤ c → s.registry.contexts c = none
  known : ∀ u c, s.lastBound u = some c → c < s.registry.nextCtx
  users : ∀ u c, s.registry.users u = some c → u ≠ [] ∧ s.lastBound u = some c

theorem getOnlineCtx_eq_some {r : Registry} {u : Bytes} {c : Nat} :
    r.getOnlineCtx u = some c ↔ u ≠ [] ∧ r.users u = some c ∧ (r.contexts c).isSome = true := by
  unfold Registry.getOnlineCtx
  split
  · next h => simp [h]
  · next h =>
    cases r.users u with
    | none => simp
    | some c' =>
      dsimp only
      split
      · next ha =>
        simp only [Option.some.injEq, ne_eq, h, not_false_eq_true, true_and]
        exact ⟨fun he => ⟨he, he ▸ ha⟩, fun he => he.1⟩
      · next ha =>
        simp only [reduceCtorEq, Option.some.injEq, ne_eq, h, not_false_eq_true, true_and, false_iff,
          not_and]
        exact fun he => he ▸ ha

/-! ## 3. What the operations do to the tables -/

section Identify

variable (r : Registry) (c : Nat) (u : Bytes)

@[simp] theorem identify_nextCtx : (r.identify c u).nextCtx = r.nextCtx := by
  unfold Registry.identify Registry.setOnlineUser
  split <;> rfl

@[simp] theorem identify_clients : (r.identify c u).clients = r.clients := by
  unfold Registry.identify Registry.setOnlineUser
  split <;> rfl

theorem identify_contexts : (r.identify c u).contexts
    = Function.update r.contexts c ((r.contexts c).map fun ctx => { ctx with accountID := u }) := by
  unfold Registry.identify Registry.setOnlineUser
  split <;> rfl

theorem identify_users (v : Bytes) : (r.identify c u).users v
    = if v = u ∧ u ≠ [] then some c else r.users v := by
  unfold Registry.identify Registry.setOnlineUser
  split
  · next hu => rw [if_neg (fun h => h.2 hu)]; rfl
  · next hu =>
    by_cases hv : v = u
    · rw [if_pos ⟨hv, hu⟩, hv]
      exact Function.update_self ..
    · rw [if_neg (fun h => hv h.1)]
      exact Function.update_of_ne hv _ _

theorem identify_account (c' : Nat) : account (r.identify c u) c'
    = if c' = c then (account r c).map (fun _ => u) else account r c' := by
  unfold account
  rw [identify_contexts]
  by_cases hc : c' = c
  · rw [if_pos hc, hc, Function.update_self, Option.map_map, Option.map_map]
    rfl
  · rw [if_neg hc, Function.update_of_ne hc]

theorem identify_registered (c' : Nat) : Registered (r.identify c u) c' ↔ Registered r c' := by
  unfold Registered
  rw [identify_contexts, identify_clients]
  by_cases hc : c' = c
  · subst hc
    rw [Function.update_self]
    cases r.contexts c' with
    | none => simp
    | some ctx => simp
  · rw [Function.update_of_ne hc]

end Identify

section Unregister

variable (r : Registry) (fd : Nat) (ctx : ClientContext)

@[simp] theorem unregister_nextCtx : (r.unregister fd ctx).nextCtx = r.nextCtx := by
  unfold Registry.unregister Registry.removeOnlineUser
  split <;> rfl

@[simp] theorem unregister_contexts : (r.unregister fd ctx).contexts = r.contexts := by
  unfold Registry.unregister Registry.removeOnlineUser
  split <;> rfl

theorem unregister_clients : (r.unregister fd ctx).clients = Function.update r.clients fd none := by
  unfold Registry.unregister Registry.removeOnlineUser
  split <;> rfl

theorem unregister_users (v : Bytes) : (r.unregister fd ctx).users v
    = if v = ctx.accountID ∧ ctx.accountID ≠ [] then none else r.users v := by
  unfold Registry.unregister Registry.removeOnlineUser
  split
  · next hu => rw [if_neg (fun h => h.2 hu)]; rfl
  · next hu =>
    by_cases hv : v = ctx.accountID
    · rw [if_pos ⟨hv, hu⟩, hv]
      exact Function.update_self ..
    · rw [if_neg (fun h => hv h.1)]
      exact Function.update_of_ne hv _ _

theorem unregister_account (c : Nat) : account (r.unregister fd ctx) c = account r c := by
  unfold account
  rw [unregister_contexts]

/-- Only the context under that descriptor leaves the client table. -/
theorem unregister_registered {c : Nat} (hc : r.clients fd = some c) (hctx : r.contexts c = some ctx)
    (hfd : ctx.fd = fd) (c' : Nat) :
    Registered (r.unregister fd ctx) c' ↔ Registered r c' ∧ c' ≠ c := by
  unfold Registered
  rw [unregister_contexts, unregister_clients]
  constructor
  · rintro ⟨ctx', hctx', hreg⟩
    have hne : ctx'.fd ≠ fd := by
      intro h
      rw [h, Function.update_self] at hreg
      exact absurd hreg (by simp)
    rw [Function.update_of_ne hne] at hreg
    refine ⟨⟨ctx', hctx', hreg⟩, ?_⟩
    rintro rfl
    rw [hctx, Option.some.injEq] at hctx'
    exact hne (hctx' ▸ hfd)
  · rintro ⟨⟨ctx', hctx', hreg⟩, hne⟩
    have hne' : ctx'.fd ≠ fd := by
      intro h
      rw [h, hc, Option.some.injEq] at hreg
      exact hne hreg.symm
    exact ⟨ctx', hctx', by rw [Function.update_of_ne hne']; exact hreg⟩

end Unregister

/-- A new connection changes nothing for the others. -/
theorem accept_others {r : Registry} {fd c : Nat} (hfree : r.clients fd = none) (hc : c < r.nextCtx) :
    account ((r.makeCtx fd).addClientCtx r.nextCtx fd) c = account r c ∧
      (Registered ((r.makeCtx fd).addClientCtx r.nextCtx fd) c ↔ Registered r c) := by
  have hctx : ((r.makeCtx fd).addClientCtx r.nextCtx fd).contexts c = r.contexts c :=
    Function.update_of_ne (Nat.ne_of_lt hc) _ _
  have hclients : ((r.makeCtx fd).addClientCtx r.nextCtx fd).clients
      = Function.update r.clients fd (some r.nextCtx) := rfl
  refine ⟨by rw [account, hctx]; rfl, ?_⟩
  unfold Registered
  rw [hctx, hclients]
  refine exists_congr fun ctx => and_congr_right fun _ => ?_
  by_cases hfd : ctx.fd = fd
  · rw [hfd, Function.update_self, hfree, Option.some.injEq]
    exact ⟨fun h => absurd h (Nat.ne_of_gt hc), fun h => absurd h (by simp)⟩
  · rw [Function.update_of_ne hfd]

/-- A context that is not registered is destroyed unnoticed by those that are. -/
theorem destroy_others {r : Registry} {c : Nat} (hc : ¬ Registered r c) (c' : Nat) :
    Registered (r.destroyCtx c) c' ↔ Registered r c' := by
  unfold Registered Registry.destroyCtx
  dsimp only
  by_cases h : c' = c
  · subst h
    refine ⟨?_, fun h => absurd h hc⟩
    rintro ⟨ctx, hctx, -⟩
    rw [Function.update_self] at hctx
    exact absurd hctx (by simp)
  · rw [Function.update_of_ne h]

theorem destroy_account {r : Registry} {c c' : Nat} (h : c' ≠ c) :
    account (r.destroyCtx c) c' = account r c' := by
  unfold account Registry.destroyCtx
  dsimp only
  rw [Function.update_of_ne h]

/-! ## 4. The tables stay well formed -/

theorem Wf.step {s s' : State} {l : Label} {es : List Unit} (hw : Wf s)
    (h : step s l = some (s', es)) : Wf s' := by
  rcases step_cases h with ⟨fd, -, hfree, rfl⟩ | ⟨c, u, ctx, -, hctx, rfl⟩ |
    ⟨fd, c, ctx, -, hc, hctx, rfl⟩ | ⟨c, hreg, rfl⟩ | rfl
  · -- accept
    refine ⟨?_, ?_, fun u c h => Nat.lt_succ_of_lt (hw.known u c h), hw.users⟩
    · intro fd' c h
      by_cases hfd : fd' = fd
      · subst hfd
        simp only [Registry.addClientCtx, Function.update_self, Option.some.injEq] at h
        subst h
        exact ⟨{ fd := fd' }, Function.update_self .., rfl⟩
      · simp only [Registry.addClientCtx, Registry.makeCtx, Function.update_of_ne hfd] at h
        obtain ⟨ctx, hctx, hfd'⟩ := hw.keyed fd' c h
        have hne : c ≠ s.registry.nextCtx := by
          rintro rfl
          rw [hw.made _ (Nat.le_refl _)] at hctx
          exact absurd hctx (by simp)
        exact ⟨ctx, (Function.update_of_ne hne _ _).trans hctx, hfd'⟩
    · intro c hc
      have hc' : s.registry.nextCtx + 1 ≤ c := hc
      exact (Function.update_of_ne (by omega) _ _).trans (hw.made c (by omega))
  · -- bind, login
    have hlt : c < s.registry.nextCtx := by
      by_contra hge
      rw [hw.made c (Nat.le_of_not_lt hge)] at hctx
      exact absurd hctx (by simp)
    refine ⟨?_, ?_, ?_, ?_⟩
    · intro fd c' h
      have h' : s.registry.clients fd = some c' := by
        rw [← h]
        exact congrFun (identify_clients s.registry c u).symm fd
      obtain ⟨ctx', hctx', hfd⟩ := hw.keyed fd c' h'
      show ∃ ctx', (s.registry.identify c u).contexts c' = some ctx' ∧ ctx'.fd = fd
      rw [identify_contexts]
      by_cases hcc : c' = c
      · subst hcc
        rw [Function.update_self, hctx']
        exact ⟨_, rfl, hfd⟩
      · rw [Function.update_of_ne hcc]
        exact ⟨ctx', hctx', hfd⟩
    · intro c' hc'
      have hc'' : s.registry.nextCtx ≤ c' := by
        rw [← identify_nextCtx s.registry c u]
        exact hc'
      show (s.registry.identify c u).contexts c' = none
      rw [identify_contexts, Function.update_of_ne (by omega)]
      exact hw.made c' hc''
    · intro v c' h
      show c' < (s.registry.identify c u).nextCtx
      rw [identify_nextCtx]
      by_cases hv : v = u
      · have h' : some c = some c' := by
          rw [← h, hv]
          exact (Function.update_self u (some c) s.lastBound).symm
        rw [← Option.some.inj h']
        exact hlt
      · exact hw.known v c' ((Function.update_of_ne hv _ _).symm.trans h)
    · intro v c' h
      have h' : (s.registry.identify c u).users v = some c' := h
      rw [identify_users] at h'
      split at h'
      · next hvu => exact ⟨hvu.1 ▸ hvu.2, by rw [hvu.1, ← h']; exact Function.update_self ..⟩
      · next hvu =>
        obtain ⟨hv, hlast⟩ := hw.users v c' h'
        refine ⟨hv, (Function.update_of_ne (fun he => hvu ⟨he, he ▸ hv⟩) _ _).trans hlast⟩
  · -- disconnect
    refine ⟨?_, ?_, ?_, ?_⟩
    · intro fd' c' h
      have h' : Function.update s.registry.clients fd none fd' = some c' := by
        rw [← unregister_clients]
        exact h
      have hne : fd' ≠ fd := by
        rintro rfl
        rw [Function.update_self] at h'
        exact absurd h' (by simp)
      rw [Function.update_of_ne hne] at h'
      simpa only [unregister_contexts] using hw.keyed fd' c' h'
    · intro c' hc'
      simpa only [unregister_contexts, unregister_nextCtx] using hw.made c' (by simpa using hc')
    · intro u c' h
      simpa only [unregister_nextCtx] using hw.known u c' h
    · intro u c' h
      have h' : (s.registry.unregister fd ctx).users u = some c' := h
      rw [unregister_users] at h'
      split at h'
      · exact absurd h' (by simp)
      · exact hw.users u c' h'
  · -- destroy
    refine ⟨?_, ?_, hw.known, hw.users⟩
    · intro fd c' h
      obtain ⟨ctx', hctx', hfd⟩ := hw.keyed fd c' h
      have hne : c' ≠ c := by
        rintro rfl
        exact hreg ⟨ctx', hctx', by rw [hfd]; exact h⟩
      exact ⟨ctx', (Function.update_of_ne hne _ _).trans hctx', hfd⟩
    · intro c' hc'
      by_cases hcc : c' = c
      · rw [hcc]
        exact Function.update_self ..
      · exact (Function.update_of_ne hcc _ _).trans (hw.made c' hc')
  · exact hw

/-! ## 5. A connected user stays reachable -/

/-- The half of the step that needs no condition: the last one to identify itself as `u` is
    found, unless a disconnect has erased the entry. -/
theorem UsersReachable.step {s s' : State} {l : Label} {es : List Unit} (hw : Wf s)
    (hg : UsersReachable s) (hp : ErasesOwnEntry s l) (h : step s l = some (s', es)) :
    UsersReachable s' := by
  intro u c₀ hu hlast hreg hacc
  rw [getOnlineCtx_eq_some]
  have halive : (s'.registry.contexts c₀).isSome = true := by
    obtain ⟨ctx, hctx, -⟩ := hreg
    rw [hctx]
    rfl
  refine ⟨hu, ?_, halive⟩
  rcases step_cases h with ⟨fd, -, hfree, rfl⟩ | ⟨c, v, ctx, -, hctx, rfl⟩ |
    ⟨fd, c, ctx, rfl, hc, hctx, rfl⟩ | ⟨c, hnot, rfl⟩ | rfl
  · obtain ⟨ha, hr⟩ := accept_others hfree (hw.known u c₀ hlast)
    exact (getOnlineCtx_eq_some.mp (hg u c₀ hu hlast (hr.mp hreg) (ha ▸ hacc))).2.1
  · show (s.registry.identify c v).users u = some c₀
    rw [identify_users]
    by_cases huv : u = v
    · have h' : some c = some c₀ := by
        rw [← hlast, huv]
        exact (Function.update_self v (some c) s.lastBound).symm
      rw [if_pos ⟨huv, huv ▸ hu⟩, h']
    · rw [if_neg (fun h => huv h.1)]
      have hlast' : s.lastBound u = some c₀ := (Function.update_of_ne huv _ _).symm.trans hlast
      have hacc' : account (s.registry.identify c v) c₀ = some u := hacc
      rw [identify_account] at hacc'
      have hne : c₀ ≠ c := by
        intro hcc
        rw [if_pos hcc, account, hctx] at hacc'
        exact huv (Option.some.inj hacc').symm
      rw [if_neg hne] at hacc'
      exact (getOnlineCtx_eq_some.mp
        (hg u c₀ hu hlast' ((identify_registered s.registry c v c₀).mp hreg) hacc')).2.1
  · obtain ⟨ctx', hctx', hfd⟩ := hw.keyed fd c hc
    rw [hctx, Option.some.injEq] at hctx'
    subst hctx'
    obtain ⟨hreg', hne⟩ := (unregister_registered s.registry fd ctx hc hctx hfd c₀).mp hreg
    have hacc' : account s.registry c₀ = some u := by
      rw [← unregister_account s.registry fd ctx]
      exact hacc
    have hfound := (getOnlineCtx_eq_some.mp (hg u c₀ hu hlast hreg' hacc')).2.1
    show (s.registry.unregister fd ctx).users u = some c₀
    rw [unregister_users, if_neg]
    · exact hfound
    · -- The entry that is erased is not `c₀`'s.
      rintro ⟨rfl, -⟩
      have hown : account s.registry c = some ctx.accountID := by rw [account, hctx]; rfl
      rcases hp c hc ctx.accountID hown c₀ hfound with h | h | h
      · exact hne h
      · exact h hreg'
      · exact h hacc'
  · have hne : c₀ ≠ c := by
      rintro rfl
      exact hnot ((destroy_others hnot c₀).mp hreg)
    have hacc' : account s.registry c₀ = some u := by
      rw [← destroy_account hne]
      exact hacc
    exact (getOnlineCtx_eq_some.mp (hg u c₀ hu hlast ((destroy_others hnot c₀).mp hreg) hacc')).2.1
  · exact (getOnlineCtx_eq_some.mp (hg u c₀ hu hlast hreg hacc)).2.1

/-- A disconnect that erases the entry of another connection of the account takes the
    account offline. -/
theorem erasesOwnEntry_of_reachable {s : State} {l : Label} (hw : Wf s)
    (hgood : ∀ s' es, step s l = some (s', es) → UsersReachable s') : ErasesOwnEntry s l := by
  cases l with
  | disconnect fd =>
    intro c hc u hacc c' huser
    by_contra hcon
    push Not at hcon
    obtain ⟨hne, hreg, hacc'⟩ := hcon
    obtain ⟨ctx, hctx, hfd⟩ := hw.keyed fd c hc
    have hu : ctx.accountID = u := by
      have hacc₀ : account s.registry c = some u := hacc
      rw [account, hctx] at hacc₀
      exact Option.some.inj hacc₀
    obtain ⟨hune, hlast⟩ := hw.users u c' huser
    have hstep : step s (.disconnect fd)
        = some ({ s with registry := s.registry.unregister fd ctx }, []) := by
      have hc' : s.registry.clients fd = some c := hc
      simp only [step, Registry.getClientCtxByFd, hc', hctx]
    have hfound := hgood _ _ hstep u c' hune hlast
      ((unregister_registered s.registry fd ctx hc hctx hfd c').mpr ⟨hreg, hne⟩)
      (by rw [unregister_account]; exact hacc')
    have hgone := (getOnlineCtx_eq_some.mp hfound).2.1
    rw [unregister_users, if_pos ⟨hu.symm, hu ▸ hune⟩] at hgone
    exact absurd hgone (by simp)
  | _ => trivial

theorem Wf.start : Wf {} := by
  refine ⟨fun _ _ h => absurd h (by simp), fun _ _ => rfl, fun _ _ h => absurd h (by simp),
    fun _ _ h => absurd h (by simp)⟩

/-- **A connected user stays reachable**, in every state of a run, exactly when no
    disconnect of the run erases the entry of another connection of the same account. -/
theorem connected_user_reachable_iff {ls : List Label} :
    Always step UsersReachable {} ls ↔ Meets step ErasesOwnEntry {} ls := by
  refine always_iff_meets (fun s => Wf s ∧ UsersReachable s) (fun hi => hi.2)
    (fun hi hp hs => ⟨hi.1.step hs, hi.2.step hi.1 hp hs⟩)
    (fun hi hgood => erasesOwnEntry_of_reachable hi.1 hgood) ⟨Wf.start, ?_⟩
  intro u c _ hlast
  exact absurd hlast (by simp)

/-- **The older connection goes.** Alice logs in a second time and the first connection is
    closed: the second is connected, hers, the last one that logged in, and not found. -/
theorem older_connection_goes : ∃ s τ,
    run step {} [.accept 5, .login 0 (ascii "alice"), .accept 6, .login 1 (ascii "alice"),
      .disconnect 5] = some (s, τ) ∧
    s.lastBound (ascii "alice") = some 1 ∧ Registered s.registry 1 ∧
    account s.registry 1 = some (ascii "alice") ∧
    s.registry.getOnlineCtx (ascii "alice") = none ∧ ¬ UsersReachable s := by
  refine ⟨_, _, rfl, by decide, by decide, by decide, by decide, ?_⟩
  intro h
  exact absurd (h (ascii "alice") 1 (by decide) (by decide) (by decide) (by decide)) (by decide)

/-! ## 6. Messages go to the account's own connection -/

theorem RoutesRight.step {s s' : State} {l : Label} {es : List Unit} (hw : Wf s)
    (hg : RoutesRight s) (hp : RebindsClean s l) (h : step s l = some (s', es)) :
    RoutesRight s' := by
  intro u c₀ honline hreg
  obtain ⟨hu, huser, -⟩ := getOnlineCtx_eq_some.mp honline
  -- What was found before the step belonged to its account.
  have hold : s.registry.users u = some c₀ → Registered s.registry c₀ →
      account s.registry c₀ = some u := by
    intro huser' hreg'
    refine hg u c₀ (getOnlineCtx_eq_some.mpr ⟨hu, huser', ?_⟩) hreg'
    obtain ⟨ctx, hctx, -⟩ := hreg'
    rw [hctx]
    rfl
  rcases step_cases h with ⟨fd, -, hfree, rfl⟩ | ⟨c, v, ctx, hl, hctx, rfl⟩ |
    ⟨fd, c, ctx, rfl, hc, hctx, rfl⟩ | ⟨c, hnot, rfl⟩ | rfl
  · obtain ⟨ha, hr⟩ := accept_others hfree (hw.known u c₀ (hw.users u c₀ huser).2)
    exact ha.trans (hold huser (hr.mp hreg))
  · have hreg' := (identify_registered s.registry c v c₀).mp hreg
    have huser' : (s.registry.identify c v).users u = some c₀ := huser
    show account (s.registry.identify c v) c₀ = some u
    rw [identify_users] at huser'
    rw [identify_account]
    split at huser'
    · next huv =>
      rw [if_pos (Option.some.inj huser').symm, account, hctx, huv.1]
      rfl
    · next huv =>
      have hacc := hold huser' hreg'
      have hne : c₀ ≠ c := by
        rintro rfl
        -- `c₀` was found under `u` and takes the account `v`.
        have hclean : LeavesNoEntry s.registry c₀ v := by
          rcases hl with ⟨rfl, hv⟩ | rfl
          · rcases hp with h0 | h0
            · exact absurd h0 hv
            · exact h0
          · exact hp
        rcases hclean hreg' u hacc with h' | h'
        · exact huv ⟨h', h' ▸ hu⟩
        · exact h' huser'
      rw [if_neg hne]
      exact hacc
  · obtain ⟨ctx', hctx', hfd⟩ := hw.keyed fd c hc
    rw [hctx, Option.some.injEq] at hctx'
    subst hctx'
    obtain ⟨hreg', -⟩ := (unregister_registered s.registry fd ctx hc hctx hfd c₀).mp hreg
    have huser' : (s.registry.unregister fd ctx).users u = some c₀ := huser
    rw [unregister_users] at huser'
    split at huser'
    · exact absurd huser' (by simp)
    · exact (unregister_account s.registry fd ctx c₀).trans (hold huser' hreg')
  · have hne : c₀ ≠ c := by
      rintro rfl
      exact hnot ((destroy_others hnot c₀).mp hreg)
    exact (destroy_account hne).trans (hold huser ((destroy_others hnot c₀).mp hreg))
  · exact hold huser hreg

/-- A connection that takes a new account and is still found under the old one is found
    under an account it does not belong to. -/
theorem leavesNoEntry_of_routes {s : State} {c : Nat} {u : Bytes} {ctx : ClientContext} (hw : Wf s)
    (hctx : s.registry.contexts c = some ctx) (hgood : RoutesRight (identify s c u)) :
    LeavesNoEntry s.registry c u := by
  intro hreg v hacc
  by_contra hcon
  push Not at hcon
  obtain ⟨hne, huser⟩ := hcon
  have hv := (hw.users v c huser).1
  have hstill : (s.registry.identify c u).users v = some c := by
    rw [identify_users, if_neg (fun h => hne h.1)]
    exact huser
  have hreg' := (identify_registered s.registry c u c).mpr hreg
  have halive : ((s.registry.identify c u).contexts c).isSome = true := by
    obtain ⟨ctx', hctx', -⟩ := hreg'
    rw [hctx']
    rfl
  have hroute := hgood v c (getOnlineCtx_eq_some.mpr ⟨hv, hstill, halive⟩) hreg'
  have hroute' : account (s.registry.identify c u) c = some v := hroute
  rw [identify_account, if_pos rfl, account, hctx] at hroute'
  exact hne (Option.some.inj hroute').symm

theorem rebindsClean_of_routes {s : State} {l : Label} (hw : Wf s)
    (hgood : ∀ s' es, step s l = some (s', es) → RoutesRight s') : RebindsClean s l := by
  cases l with
  | bind c u =>
    by_cases hu : u = []
    · exact Or.inl hu
    · refine Or.inr fun hreg => ?_
      obtain ⟨ctx, hctx, -⟩ := id hreg
      have hstep : step s (.bind c u) = some (identify s c u, []) := by
        simp only [step, hctx, if_neg hu]
      exact leavesNoEntry_of_routes hw hctx (hgood _ _ hstep) hreg
  | login c u =>
    intro hreg
    obtain ⟨ctx, hctx, -⟩ := id hreg
    have hstep : step s (.login c u) = some (identify s c u, []) := by
      simp only [step, hctx]
      rw [if_pos (by simp [Registry.isCurrentSessionValid])]
    exact leavesNoEntry_of_routes hw hctx (hgood _ _ hstep) hreg
  | accept fd => trivial
  | disconnect fd => trivial
  | destroy c => trivial

/-- **Messages are routed to the account's own connection**, in every state of a run,
    exactly when no registered connection of the run takes a new account while it is found
    under its old one. -/
theorem routed_to_own_account_iff {ls : List Label} :
    Always step RoutesRight {} ls ↔ Meets step RebindsClean {} ls := by
  refine always_iff_meets (fun s => Wf s ∧ RoutesRight s) (fun hi => hi.2)
    (fun hi hp hs => ⟨hi.1.step hs, hi.2.step hi.1 hp hs⟩)
    (fun hi hgood => rebindsClean_of_routes hi.1 hgood) ⟨Wf.start, ?_⟩
  intro u c honline
  exact absurd (getOnlineCtx_eq_some.mp honline).2.1 (by simp)

/-- **Two names.** A connection binds as Alice, then as Bob: what is sent to Alice goes to
    Bob's connection. -/
theorem two_names : ∃ s τ,
    run step {} [.accept 5, .bind 0 (ascii "alice"), .bind 0 (ascii "bob")] = some (s, τ) ∧
    s.registry.getOnlineCtx (ascii "alice") = some 0 ∧ Registered s.registry 0 ∧
    account s.registry 0 = some (ascii "bob") ∧ ¬ RoutesRight s := by
  refine ⟨_, _, rfl, by decide, by decide, by decide, ?_⟩
  intro h
  exact absurd (h (ascii "alice") 0 (by decide) (by decide)) (by decide)

end Sessions
end EpollChat
