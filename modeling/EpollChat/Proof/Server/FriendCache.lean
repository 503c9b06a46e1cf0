import EpollChat.Proof.Server.Friends
import EpollChat.Server.FriendCache

/-!
# Stale friend lists

A reader that has missed the cache holds a list it read a while ago, and `SETEX` asks no
question. If an addition's `INSERT` and `DEL` both fall between the reader's `SELECT` and its
`SETEX`, the old list is stored *after* the invalidation and stays for 300 seconds
(`stale_list_stored`).

That order is what `InOrder` excludes: whoever stores a list has read it from a table that had
all the rows whose invalidations are over. The other clauses keep out what would spoil a list
without any race: rows that `INSERT IGNORE` drops, a `SELECT` that breaks off, names that do
not fit the buffer, and the NUL bytes at which `%s` cuts keys and texts. In every run that
meets it, a call returns everything it owes (`friend_list_current`).
-/

namespace EpollChat
namespace FriendCache

open Lib Machine Friends

/-! ## 1. Texts and lists -/

theorem zero_not_mem_quotedNames : ∀ {fs : List Bytes}, (∀ f ∈ fs, 0 ∉ f) → 0 ∉ quotedNames fs
  | [], _ => List.not_mem_nil
  | [f], h => by
    have hf := h f List.mem_cons_self
    simp [quotedNames, quoted, quote, hf]
  | f :: g :: fs, h => by
    have hf := h f List.mem_cons_self
    have hrest : 0 ∉ quotedNames (g :: fs) :=
      zero_not_mem_quotedNames fun f' hf' => h f' (List.mem_cons_of_mem _ hf')
    simp [quotedNames, quoted, quote, comma, hf, hrest]

theorem zero_not_mem_buildFriendListJson {fs : List Bytes} (h : ∀ f ∈ fs, 0 ∉ f) :
    0 ∉ buildFriendListJson fs := by
  have hnames := zero_not_mem_quotedNames h
  have hkey : (0 : UInt8) ∉ ascii "friends" := by decide
  simp [buildFriendListJson, quoted, quote, colon, openBrace, openBracket, closeBracket, closeBrace,
    hnames, hkey]

/-- Names without a NUL have keys of their own. -/
theorem cacheKey_inj {u w : Bytes} (hu : 0 ∉ u) (hw : 0 ∉ w) (h : cacheKey u = cacheKey w) :
    u = w := by
  have hhead : (0 : UInt8) ∉ ascii "chat:friends:" := by decide
  have hkey : ∀ {v : Bytes}, 0 ∉ v → cacheKey v = ascii "chat:friends:" ++ v := fun hv =>
    cStr_eq_self_iff.mpr (by simp [hhead, hv])
  rw [hkey hu, hkey hw] at h
  exact List.append_cancel_left h

@[simp] theorem mem_friendsOf {t : Table} {u f : Bytes} : f ∈ friendsOf t u ↔ (u, f) ∈ t := by
  simp [friendsOf]

/-- A `SELECT` that comes through, on names that fit the buffer, returns every row. -/
theorem fetchFriends_eq {rows : List Bytes} {fetched : Nat} (hall : rows.length ≤ fetched)
    (hfit : ∀ f ∈ rows, f.length ≤ friendBufSize) : fetchFriends rows fetched = rows := by
  rw [fetchFriends, List.take_of_length_le hall, List.takeWhile_eq_self_iff]
  intro f hf
  exact decide_eq_true (hfit f hf)

/-! ## 2. The condition -/

/-- What a thread about to store a list has to have seen. -/
def Phase.Current (invalidated : List (Bytes × Bytes)) : Phase → Prop
  | .storing username _ seen _ => ∀ row ∈ invalidated, row.1 = username → row ∈ seen
  | _ => True

/-- No `SETEX` stores a list that was read before an `INSERT` for the same user whose `DEL` is
    already over, and nothing else loses a row or a byte. -/
def InOrder {ι : Type} (s : State ι) : Label ι → Prop
  | .insertFirst _ o | .insertSecond _ o => o ≠ .ignored
  | .getFriendList _ username _ => 0 ∉ username
  | .select _ rows fetched =>
      rows.length ≤ fetched ∧ ∀ f ∈ rows, f.length ≤ friendBufSize ∧ 0 ∉ f
  | .setex t stored => stored = true → (s.threads t).Current s.invalidated
  | _ => True

instance (invalidated : List (Bytes × Bytes)) : DecidablePred (Phase.Current invalidated)
  | .storing username _ seen _ =>
      inferInstanceAs (Decidable (∀ row ∈ invalidated, row.1 = username → row ∈ seen))
  | .idle | .insertingFirst .. | .insertingSecond .. | .queueing .. | .deletingFirst ..
  | .deletingSecond .. | .getting .. | .selecting .. => isTrue trivial

instance {ι : Type} (s : State ι) : DecidablePred (InOrder s)
  | .insertFirst _ _ | .insertSecond _ _ => inferInstanceAs (Decidable (_ ≠ _))
  | .getFriendList .. => inferInstanceAs (Decidable (_ ∉ _))
  | .select .. => inferInstanceAs (Decidable (_ ∧ ∀ f ∈ _, _ ∧ _ ∉ f))
  | .setex .. => inferInstanceAs (Decidable (_ → Phase.Current _ _))
  | .addFriend .. | .queueInvalidation .. | .takeInvalidation _ | .deleteFirst .. | .deleteSecond ..
  | .get .. | .expire _ => isTrue trivial

/-! ## 3. The invariant -/

/-- What a thread knows, by its place: the rows of an addition that has inserted them, what a
    call owes, and what a list read from the table contains. -/
def Phase.Ok (friends : Table) (invalidated : List (Bytes × Bytes)) : Phase → Prop
  | .idle | .insertingFirst .. => True
  | .insertingSecond u f e₁ => e₁.ok = true → (u, f) ∈ friends
  | .queueing u f | .deletingFirst u f => (u, f) ∈ friends ∧ (f, u) ∈ friends
  | .deletingSecond u f first =>
      ((u, f) ∈ friends ∧ (f, u) ∈ friends) ∧ (first = true → (u, f) ∈ invalidated)
  | .getting w due => (w ≠ [] ∧ 0 ∉ w) ∧ ∀ f ∈ due, (w, f) ∈ invalidated
  | .selecting w due caching =>
      (caching = true → w ≠ [] ∧ 0 ∉ w) ∧ ∀ f ∈ due, (w, f) ∈ invalidated
  | .storing w due seen list =>
      (w ≠ [] ∧ 0 ∉ w) ∧ (∀ f ∈ due, f ∈ list) ∧ (∀ f, (w, f) ∈ seen → f ∈ list) ∧
        ∀ f ∈ list, 0 ∉ f

/-- The rows of an invalidation are there, and a cached list has everybody whose `DEL` is over. -/
structure Coherent {ι : Type} (s : State ι) : Prop where
  tasks : ∀ u f, (u, f) ∈ s.queued → (u, f) ∈ s.friends ∧ (f, u) ∈ s.friends
  rows : ∀ row ∈ s.invalidated, row ∈ s.friends
  settled : ∀ row ∈ s.settled, row ∈ s.invalidated
  cached : ∀ w text, w ≠ [] → 0 ∉ w → s.cache (cacheKey w) = some text →
    ∀ f, (w, f) ∈ s.invalidated → Lists text f ∧ 0 ∉ text
  phases : ∀ t, (s.threads t).Ok s.friends s.invalidated

theorem Phase.Ok.mono {p : Phase} {friends friends' : Table} {inv inv' : List (Bytes × Bytes)}
    (h : p.Ok friends inv) (hf : friends ⊆ friends') (hi : inv ⊆ inv') : p.Ok friends' inv' := by
  cases p with
  | idle => trivial
  | insertingFirst u f => trivial
  | insertingSecond u f e₁ => exact fun hok => hf (h hok)
  | queueing u f => exact ⟨hf h.1, hf h.2⟩
  | deletingFirst u f => exact ⟨hf h.1, hf h.2⟩
  | deletingSecond u f first => exact ⟨⟨hf h.1.1, hf h.1.2⟩, fun hfirst => hi (h.2 hfirst)⟩
  | getting w due => exact ⟨h.1, fun f hm => hi (h.2 f hm)⟩
  | selecting w due caching => exact ⟨h.1, fun f hm => hi (h.2 f hm)⟩
  | storing w due seen list => exact h

section

variable {ι : Type} [DecidableEq ι]

/-- One thread moves, and the tables have only grown. -/
theorem phases_update {threads : ι → Phase} {friends friends' : Table}
    {inv inv' : List (Bytes × Bytes)} (h : ∀ u, (threads u).Ok friends inv)
    (hf : friends ⊆ friends') (hi : inv ⊆ inv') {t : ι} {p : Phase} (hp : p.Ok friends' inv') :
    ∀ u, (Function.update threads t p u).Ok friends' inv' := by
  intro u
  by_cases hu : u = t
  · rw [hu, Function.update_self]
    exact hp
  · rw [Function.update_of_ne hu]
    exact (h u).mono hf hi

/-- A step that changes nothing but its own thread. -/
theorem Coherent.setThread {s : State ι} (h : Coherent s) (t : ι) {p : Phase}
    (hp : p.Ok s.friends s.invalidated) : Coherent (setThread s t p) :=
  ⟨h.tasks, h.rows, h.settled, h.cached,
    phases_update h.phases (List.Subset.refl _) (List.Subset.refl _) hp⟩

/-! ## 4. Additions -/

theorem subset_insertIgnore (t : Table) (u f : Bytes) (o : Outcome) :
    t ⊆ (insertIgnore t u f o).2 := by
  cases o with
  | done =>
    by_cases hin : (u, f) ∈ t
    · rw [(insertIgnore_present hin .done).1]
      exact List.Subset.refl _
    · rw [insertIgnore_done hin]
      exact List.subset_append_left _ _
  | ignored => exact List.Subset.refl _
  | failed => exact List.Subset.refl _

/-- An execution without an error, of a row that is not dropped, leaves the row in the table. -/
theorem mem_insertIgnore {t : Table} {u f : Bytes} {o : Outcome} (ho : o ≠ .ignored)
    (hok : (insertIgnore t u f o).1.ok = true) : (u, f) ∈ (insertIgnore t u f o).2 := by
  cases o with
  | done =>
    by_cases hin : (u, f) ∈ t
    · rw [(insertIgnore_present hin .done).1]
      exact hin
    · rw [insertIgnore_done hin]
      exact List.mem_append_right _ List.mem_cons_self
  | ignored => exact absurd rfl ho
  | failed => exact absurd hok (by simp [insertIgnore])

theorem ok_of_added {e₁ e₂ : Executed} (h : added e₁ e₂ = true) : e₁.ok = true ∧ e₂.ok = true := by
  simp only [added, Bool.and_eq_true] at h
  exact h.1

/-- The table grows under the other threads. -/
theorem Coherent.grow {s : State ι} (h : Coherent s) {friends : Table} (hf : s.friends ⊆ friends)
    (t : ι) {p : Phase} (hp : p.Ok friends s.invalidated) :
    Coherent (FriendCache.setThread { s with friends := friends } t p) :=
  ⟨fun u f hm => ⟨hf (h.tasks u f hm).1, hf (h.tasks u f hm).2⟩, fun row hm => hf (h.rows row hm),
    h.settled, h.cached, phases_update h.phases hf (List.Subset.refl _) hp⟩

theorem Coherent.insertFirst {s : State ι} (h : Coherent s) {t : ι} {u f : Bytes} {o : Outcome}
    (ho : o ≠ .ignored) : Coherent (insertFirst s t u f o) :=
  h.grow (subset_insertIgnore _ _ _ _) t fun hok => mem_insertIgnore ho hok

theorem Coherent.insertSecond {s : State ι} (h : Coherent s) {t : ι} {u f : Bytes} {e₁ : Executed}
    {o : Outcome} (ht : s.threads t = .insertingSecond u f e₁) (ho : o ≠ .ignored) :
    Coherent (insertSecond s t u f e₁ o).1 := by
  refine h.grow (subset_insertIgnore _ _ _ _) t ?_
  cases hadd : added e₁ (insertIgnore s.friends f u o).1 with
  | false => trivial
  | true =>
    obtain ⟨hok₁, hok₂⟩ := ok_of_added hadd
    have hfirst := h.phases t
    rw [ht] at hfirst
    exact ⟨subset_insertIgnore _ _ _ _ (hfirst hok₁), mem_insertIgnore ho hok₂⟩

/-- A thread that nobody interrupts does what `addFriendToDB` does. -/
theorem run_addFriend {s : State ι} {t : ι} (ht : s.threads t = .idle) (u f : Bytes)
    (o₁ o₂ : Outcome) : ∃ s',
    run step s [.addFriend t u f true, .insertFirst t o₁, .insertSecond t o₂]
      = some (s', [.added t u f (addFriendToDB s.friends u f true o₁ o₂).1]) ∧
    s'.friends = (addFriendToDB s.friends u f true o₁ o₂).2 ∧
    s'.threads t = if (addFriendToDB s.friends u f true o₁ o₂).1 then .queueing u f else .idle := by
  refine ⟨(FriendCache.insertSecond (FriendCache.insertFirst (FriendCache.setThread s t
    (.insertingFirst u f)) t u f o₁) t u f (insertIgnore s.friends u f o₁).1 o₂).1, ?_, rfl, ?_⟩
  · simp [run, FriendCache.step, ht, FriendCache.setThread, FriendCache.insertFirst,
      FriendCache.insertSecond, addFriendToDB]
  · simp [FriendCache.setThread, FriendCache.insertFirst, FriendCache.insertSecond, addFriendToDB]

/-! ## 5. Invalidations -/

omit [DecidableEq ι] in
/-- The key of a user with a name is gone, and the user is owed one friend more. -/
theorem Coherent.deleteKey {s : State ι} (h : Coherent s) {u f : Bytes} (hrow : (u, f) ∈ s.friends)
    (executed : Bool) : Coherent (deleteKey s u f executed) := by
  cases hrun : invalidates u executed with
  | false =>
    -- not executed, so the name is not empty and the cache is as it was
    have hne : u.isEmpty = false ∧ executed = false := by simpa [invalidates] using hrun
    have hsame : FriendCache.deleteKey s u f executed = s := by
      simp [FriendCache.deleteKey, invalidates, hne.1, hne.2]
    rw [hsame]
    exact h
  | true =>
    have hinv : s.invalidated ⊆ s.invalidated ++ [(u, f)] := List.subset_append_left _ _
    have hs : (FriendCache.deleteKey s u f executed).invalidated = s.invalidated ++ [(u, f)] := by
      simp [FriendCache.deleteKey, hrun]
    refine ⟨h.tasks, ?_, ?_, ?_, ?_⟩
    · intro row hm
      rw [hs] at hm
      rcases List.mem_append.mp hm with hm | hm
      · exact h.rows row hm
      · rw [List.mem_singleton.mp hm]
        exact hrow
    · intro row hm
      rw [hs]
      exact hinv (h.settled row hm)
    · intro w text hw hnul hget g hg
      rw [hs] at hg
      by_cases hkey : cacheKey u = cacheKey w ∧ u.isEmpty = false
      · -- this very key has just been deleted
        have hexec : executed = true := by simpa [invalidates, hkey.2] using hrun
        have hgone : (FriendCache.deleteKey s u f executed).cache (cacheKey w) = none := by
          simp [FriendCache.deleteKey, hkey.2, hexec, ← hkey.1]
        rw [hgone] at hget
        exact absurd hget (by simp)
      · have hold : s.cache (cacheKey w) = some text := by
          rw [← hget]
          cases hempty : u.isEmpty with
          | true => simp [FriendCache.deleteKey, hempty]
          | false =>
            have hne : cacheKey w ≠ cacheKey u := fun he => hkey ⟨he.symm, hempty⟩
            simp only [FriendCache.deleteKey, hempty]
            split
            · exact absurd ‹_› (by simp)
            · split
              · rw [Function.update_of_ne hne]
              · rfl
        have hmem : (w, g) ∈ s.invalidated := by
          rcases List.mem_append.mp hg with hg | hg
          · exact hg
          · obtain ⟨rfl, -⟩ := Prod.mk.inj (List.mem_singleton.mp hg)
            exact absurd ⟨rfl, by simpa using hw⟩ hkey
        exact h.cached w text hw hnul hold g hmem
    · intro t
      rw [hs]
      exact (h.phases t).mono (List.Subset.refl _) hinv

omit [DecidableEq ι] in
theorem mem_invalidated_deleteKey {s : State ι} {u f : Bytes} {executed : Bool}
    (hrun : invalidates u executed = true) : (u, f) ∈ (deleteKey s u f executed).invalidated := by
  simp [deleteKey, hrun]

omit [DecidableEq ι] in
theorem subset_invalidated_deleteKey (s : State ι) (u f : Bytes) (executed : Bool) :
    s.invalidated ⊆ (deleteKey s u f executed).invalidated := by
  unfold deleteKey
  dsimp only
  split
  · exact List.subset_append_left _ _
  · exact List.Subset.refl _

theorem Coherent.deleteSecond {s : State ι} (h : Coherent s) {t : ι} {u f : Bytes} {first : Bool}
    (ht : s.threads t = .deletingSecond u f first) (executed : Bool) :
    Coherent (deleteSecond s t u f first executed) := by
  have hph := h.phases t
  rw [ht] at hph
  have hd := h.deleteKey hph.1.2 executed
  refine ⟨hd.tasks, hd.rows, ?_, hd.cached, phases_update hd.phases (List.Subset.refl _)
    (List.Subset.refl _) trivial⟩
  intro row hm
  by_cases hboth : (first && invalidates f executed) = true
  · have hset : row ∈ s.settled ++ [(u, f), (f, u)] := by
      simpa [FriendCache.deleteSecond, FriendCache.setThread, hboth] using hm
    rw [Bool.and_eq_true] at hboth
    rcases List.mem_append.mp hset with hold | hnew
    · exact subset_invalidated_deleteKey s f u executed (h.settled row hold)
    · simp only [List.mem_cons, List.not_mem_nil, or_false] at hnew
      rcases hnew with rfl | rfl
      · exact subset_invalidated_deleteKey s f u executed (hph.2 hboth.1)
      · exact mem_invalidated_deleteKey hboth.2
  · have hset : row ∈ s.settled := by
      simpa [FriendCache.deleteSecond, FriendCache.setThread, hboth] using hm
    exact subset_invalidated_deleteKey s f u executed (h.settled row hset)

/-! ## 6. Readers -/

/-- What a returned text owes. -/
def Event.Pays : Event ι → Prop
  | .returned _ _ due text => ∀ f ∈ due, Lists text f
  | .added .. => True

theorem Coherent.getFriendList {s : State ι} (h : Coherent s) {t : ι} {w : Bytes} (hnul : 0 ∉ w)
    (connected : Bool) : Coherent (getFriendList s t w connected) := by
  have hdue : ∀ f ∈ friendsOf s.settled w, (w, f) ∈ s.invalidated :=
    fun f hf => h.settled _ (mem_friendsOf.mp hf)
  refine h.setThread t ?_
  split
  · exact ⟨fun hc => absurd hc (by simp), hdue⟩
  · next hcond =>
    have hne : w.isEmpty = false := by
      simp only [Bool.or_eq_true, not_or, Bool.not_eq_true] at hcond
      exact hcond.1
    exact ⟨⟨by simpa using hne, hnul⟩, hdue⟩

theorem Coherent.get {s : State ι} (h : Coherent s) {t : ι} {w : Bytes} {due : List Bytes}
    (ht : s.threads t = .getting w due) (answered : Bool) :
    Coherent (get s t w due answered).1 ∧ ∀ e ∈ (get s t w due answered).2, e.Pays := by
  have hph := h.phases t
  rw [ht] at hph
  obtain ⟨⟨hne, hnul⟩, hdue⟩ := hph
  unfold FriendCache.get
  split
  · next text hhit =>
    have hcache : s.cache (cacheKey w) = some text := by
      cases answered with
      | true => exact hhit
      | false => exact absurd hhit (by simp)
    refine ⟨h.setThread t trivial, ?_⟩
    intro e he
    rw [List.mem_singleton.mp he]
    intro f hf
    obtain ⟨hlists, hzero⟩ := h.cached w text hne hnul hcache f (hdue f hf)
    rw [cStr_eq_self_iff.mpr hzero]
    exact hlists
  · exact ⟨h.setThread t ⟨fun _ => ⟨hne, hnul⟩, hdue⟩, fun e he => absurd he List.not_mem_nil⟩

theorem Coherent.select {s : State ι} (h : Coherent s) {t : ι} {w : Bytes} {due rows : List Bytes}
    {caching : Bool} {fetched : Nat} (ht : s.threads t = .selecting w due caching)
    (hperm : rows.Perm (friendsOf s.friends w)) (hall : rows.length ≤ fetched)
    (hfit : ∀ f ∈ rows, f.length ≤ friendBufSize ∧ 0 ∉ f) :
    Coherent (select s t w due caching (fetchFriends rows fetched)).1 ∧
      ∀ e ∈ (select s t w due caching (fetchFriends rows fetched)).2, e.Pays := by
  have hph := h.phases t
  rw [ht] at hph
  obtain ⟨hname, hdue⟩ := hph
  rw [fetchFriends_eq hall fun f hf => (hfit f hf).1]
  have hmem : ∀ f, (w, f) ∈ s.friends → f ∈ rows :=
    fun f hf => hperm.mem_iff.mpr (mem_friendsOf.mpr hf)
  have howed : ∀ f ∈ due, f ∈ rows := fun f hf => hmem f (h.rows _ (hdue f hf))
  unfold FriendCache.select
  split
  · next hc =>
    refine ⟨h.setThread t ⟨hname hc, howed, hmem, fun f hf => (hfit f hf).2⟩, ?_⟩
    exact fun e he => absurd he List.not_mem_nil
  · refine ⟨h.setThread t trivial, ?_⟩
    intro e he
    rw [List.mem_singleton.mp he]
    exact fun f hf => ⟨rows, rfl, howed f hf⟩

/-- The list that goes into the cache has everybody whose `DEL` is over. -/
theorem Coherent.setex {s : State ι} (h : Coherent s) {t : ι} {w : Bytes} {due list : List Bytes}
    {seen : Table} {stored : Bool} (ht : s.threads t = .storing w due seen list)
    (hcur : stored = true → (s.threads t).Current s.invalidated) :
    Coherent (setex s t w due list stored).1 ∧ ∀ e ∈ (setex s t w due list stored).2, e.Pays := by
  have hph := h.phases t
  rw [ht] at hph hcur
  obtain ⟨⟨hne, hnul⟩, howed, hseen, hnames⟩ := hph
  have htext : (0 : UInt8) ∉ buildFriendListJson list := zero_not_mem_buildFriendListJson hnames
  refine ⟨⟨h.tasks, h.rows, h.settled, ?_, phases_update h.phases (List.Subset.refl _)
    (List.Subset.refl _) trivial⟩, ?_⟩
  · intro v text hv hvnul hget f hf
    cases stored with
    | false => exact h.cached v text hv hvnul hget f hf
    | true =>
      by_cases hkey : cacheKey v = cacheKey w
      · have hvw : v = w := cacheKey_inj hvnul hnul hkey
        have hstored : text = buildFriendListJson list := by
          simp only [FriendCache.setex, FriendCache.setThread, if_true, hkey, Function.update_self,
            Option.some.injEq] at hget
          rw [← hget, cStr_eq_self_iff.mpr htext]
        rw [hstored]
        refine ⟨⟨list, rfl, hseen f ?_⟩, htext⟩
        exact hcur rfl (w, f) (hvw ▸ hf) rfl
      · have hold : s.cache (cacheKey v) = some text := by
          simpa only [FriendCache.setex, FriendCache.setThread, if_true, Function.update_of_ne hkey]
            using hget
        exact h.cached v text hv hvnul hold f hf
  · intro e he
    rw [List.mem_singleton.mp he]
    exact fun f hf => ⟨list, rfl, howed f hf⟩

omit [DecidableEq ι] in
theorem Coherent.expire {s : State ι} (h : Coherent s) (key : Bytes) :
    Coherent { s with cache := Function.update s.cache key none } := by
  refine ⟨h.tasks, h.rows, h.settled, ?_, h.phases⟩
  intro w text hw hnul hget f hf
  by_cases hkey : cacheKey w = key
  · have hgone : Function.update s.cache key none (cacheKey w) = none := by
      rw [hkey, Function.update_self]
    exact absurd (hgone.symm.trans hget) (by simp)
  · have hold : s.cache (cacheKey w) = some text := by
      rw [← hget]
      exact (Function.update_of_ne hkey _ _).symm
    exact h.cached w text hw hnul hold f hf

/-! ## 7. Every run -/

/-- **One step** that is in order keeps the cache coherent, and a call that returns pays. -/
theorem Coherent.step {s s' : State ι} {l : Label ι} {es : List (Event ι)} (h : Coherent s)
    (hp : InOrder s l) (hs : step s l = some (s', es)) : Coherent s' ∧ ∀ e ∈ es, e.Pays := by
  have hnone : ∀ e ∈ ([] : List (Event ι)), e.Pays := fun e he => absurd he List.not_mem_nil
  cases l with
  | addFriend t u f prepared =>
    simp only [FriendCache.step] at hs
    split at hs
    · split at hs
      · obtain ⟨rfl, rfl⟩ := Prod.mk.inj (Option.some.inj hs)
        exact ⟨h.setThread t trivial, hnone⟩
      · obtain ⟨rfl, rfl⟩ := Prod.mk.inj (Option.some.inj hs)
        refine ⟨h, fun e he => ?_⟩
        rw [List.mem_singleton.mp he]
        trivial
    · exact absurd hs (by simp)
  | insertFirst t o =>
    simp only [FriendCache.step] at hs
    split at hs
    · obtain ⟨rfl, rfl⟩ := Prod.mk.inj (Option.some.inj hs)
      exact ⟨h.insertFirst hp, hnone⟩
    · exact absurd hs (by simp)
  | insertSecond t o =>
    simp only [FriendCache.step] at hs
    split at hs
    · next ht =>
      obtain ⟨rfl, rfl⟩ := Prod.mk.inj (Option.some.inj hs)
      refine ⟨h.insertSecond ht hp, fun e he => ?_⟩
      rw [List.mem_singleton.mp he]
      trivial
    · exact absurd hs (by simp)
  | queueInvalidation t accepted =>
    simp only [FriendCache.step] at hs
    split at hs
    · next u f ht =>
      obtain ⟨rfl, rfl⟩ := Prod.mk.inj (Option.some.inj hs)
      have hrows := h.phases t
      rw [ht] at hrows
      refine ⟨⟨?_, h.rows, h.settled, h.cached, phases_update h.phases (List.Subset.refl _)
        (List.Subset.refl _) trivial⟩, hnone⟩
      intro v g hm
      have hm' : (v, g) ∈ s.queued ∨ (v, g) = (u, f) := by
        cases accepted with
        | false => exact Or.inl hm
        | true => simpa [FriendCache.setThread] using hm
      rcases hm' with hm' | hm'
      · exact h.tasks v g hm'
      · obtain ⟨rfl, rfl⟩ := Prod.mk.inj hm'
        exact hrows
    · exact absurd hs (by simp)
  | takeInvalidation t =>
    simp only [FriendCache.step] at hs
    split at hs
    · next u f rest ht hq =>
      obtain ⟨rfl, rfl⟩ := Prod.mk.inj (Option.some.inj hs)
      have htask : ∀ v g, (v, g) ∈ rest → (v, g) ∈ s.friends ∧ (g, v) ∈ s.friends :=
        fun v g hm => h.tasks v g (hq ▸ List.mem_cons_of_mem _ hm)
      exact ⟨⟨htask, h.rows, h.settled, h.cached, phases_update h.phases (List.Subset.refl _)
        (List.Subset.refl _) (h.tasks u f (hq ▸ List.mem_cons_self))⟩, hnone⟩
    · exact absurd hs (by simp)
  | deleteFirst t executed =>
    simp only [FriendCache.step] at hs
    split at hs
    · next u f ht =>
      obtain ⟨rfl, rfl⟩ := Prod.mk.inj (Option.some.inj hs)
      have hrows := h.phases t
      rw [ht] at hrows
      refine ⟨(h.deleteKey hrows.1 executed).setThread t ⟨hrows, fun hrun => ?_⟩, hnone⟩
      exact mem_invalidated_deleteKey hrun
    · exact absurd hs (by simp)
  | deleteSecond t executed =>
    simp only [FriendCache.step] at hs
    split at hs
    · next ht =>
      obtain ⟨rfl, rfl⟩ := Prod.mk.inj (Option.some.inj hs)
      exact ⟨h.deleteSecond ht executed, hnone⟩
    · exact absurd hs (by simp)
  | getFriendList t w connected =>
    simp only [FriendCache.step] at hs
    split at hs
    · obtain ⟨rfl, rfl⟩ := Prod.mk.inj (Option.some.inj hs)
      exact ⟨h.getFriendList hp connected, hnone⟩
    · exact absurd hs (by simp)
  | get t answered =>
    simp only [FriendCache.step] at hs
    split at hs
    · next ht =>
      obtain ⟨rfl, rfl⟩ := Prod.mk.inj (Option.some.inj hs)
      exact h.get ht answered
    · exact absurd hs (by simp)
  | select t rows fetched =>
    simp only [FriendCache.step] at hs
    split at hs
    · next ht =>
      split at hs
      · next hperm =>
        obtain ⟨rfl, rfl⟩ := Prod.mk.inj (Option.some.inj hs)
        exact h.select ht (List.isPerm_iff.mp hperm) hp.1 hp.2
      · exact absurd hs (by simp)
    · exact absurd hs (by simp)
  | setex t stored =>
    simp only [FriendCache.step] at hs
    split at hs
    · next ht =>
      obtain ⟨rfl, rfl⟩ := Prod.mk.inj (Option.some.inj hs)
      exact h.setex ht hp
    · exact absurd hs (by simp)
  | expire key =>
    obtain ⟨rfl, rfl⟩ := Prod.mk.inj (Option.some.inj hs)
    exact ⟨h.expire key, hnone⟩

/-- **Friend lists are current, if nothing is stored out of order.** From any table and any
    cache, in every run whose steps are in order: a call of `getFriendListJson` returns a list
    with every friend of its user whose addition, both invalidations included, was over when
    the call started. -/
theorem friend_list_current {friends : Table} {cache : Bytes → Option Bytes} {s : State ι}
    {ls : List (Label ι)} {τ : List (Event ι)}
    (hm : Meets step InOrder { friends := friends, cache := cache } ls)
    (hr : run step { friends := friends, cache := cache } ls = some (s, τ)) :
    ∀ t username due text, .returned t username due text ∈ τ → ∀ f ∈ due, Lists text f := by
  have hstart : Coherent (ι := ι) { friends := friends, cache := cache } :=
    ⟨fun u f hq => absurd hq List.not_mem_nil, fun row hq => absurd hq List.not_mem_nil,
      fun row hq => absurd hq List.not_mem_nil,
      fun w text _ _ _ f hq => absurd hq List.not_mem_nil, fun t => trivial⟩
  have h := run_events_of_meets Coherent Event.Pays (fun hi hp hs => hi.step hp hs) hstart hm hr
  exact fun t username due text hmem => h _ hmem

end

/-- `b` is added while `a`'s old list is under way to the cache; it is stored there before the
    invalidation. The next call reads the table, and the one after that the cache. -/
def inOrderRun : List (Label Nat) :=
  [.getFriendList 0 (ascii "a") true, .get 0 true, .select 0 [] 1,
    .addFriend 1 (ascii "a") (ascii "b") true, .insertFirst 1 .done, .insertSecond 1 .done,
    .queueInvalidation 1 true, .setex 0 true, .takeInvalidation 2, .deleteFirst 2 true,
    .deleteSecond 2 true, .getFriendList 3 (ascii "a") true, .get 3 true, .select 3 [ascii "b"] 1,
    .setex 3 true, .getFriendList 4 (ascii "a") true, .get 4 true]

theorem friend_list_current_two : ∃ s τ,
    run step { friends := [], cache := fun _ => none } inOrderRun = some (s, τ) ∧
    .returned 4 (ascii "a") [ascii "b"] (buildFriendListJson [ascii "b"]) ∈ τ ∧
    ∀ t username due text, .returned t username due text ∈ τ → ∀ f ∈ due, Lists text f := by
  obtain ⟨⟨s, τ⟩, hr⟩ := Option.isSome_iff_exists.mp (show (run step
    { friends := [], cache := fun _ => none } inOrderRun).isSome = true from rfl)
  refine ⟨s, τ, hr, ?_, friend_list_current (by decide) hr⟩
  obtain ⟨-, rfl⟩ := Prod.mk.inj (Option.some.inj hr)
  decide

/-- Nobody is in the empty list. -/
theorem not_lists_empty (f : Bytes) : ¬ Lists (buildFriendListJson []) f := by
  rintro ⟨friends, htext, hf⟩
  have hnames : quotedNames friends ++ [closeBracket, closeBrace] = [closeBracket, closeBrace] := by
    simpa [buildFriendListJson, quotedNames] using htext.symm
  cases friends with
  | nil => exact List.not_mem_nil hf
  | cons g gs =>
    cases gs with
    | nil => exact absurd hnames (by simp [quotedNames, quoted, quote, closeBracket])
    | cons h hs => exact absurd hnames (by simp [quotedNames, quoted, quote, closeBracket])

/-- **Stored too late.** `SELECT`, `INSERT`, `DEL`, `SETEX`: the addition is over, and the next
    call is answered from the cache, without the new friend. -/
theorem stale_list_stored : ∃ s τ,
    run step { friends := [], cache := fun _ => none } ([.getFriendList 0 (ascii "a") true,
      .get 0 true, .select 0 [] 1, .addFriend 1 (ascii "a") (ascii "b") true, .insertFirst 1 .done,
      .insertSecond 1 .done, .queueInvalidation 1 true, .takeInvalidation 2, .deleteFirst 2 true,
      .deleteSecond 2 true, .setex 0 true, .getFriendList 3 (ascii "a") true, .get 3 true] :
        List (Label Nat)) = some (s, τ) ∧
    .added 1 (ascii "a") (ascii "b") true ∈ τ ∧
    .returned 3 (ascii "a") [ascii "b"] (buildFriendListJson []) ∈ τ ∧
    ¬ ∀ t username due text, .returned t username due text ∈ τ → ∀ f ∈ due, Lists text f := by
  have hmem : Event.returned 3 (ascii "a") [ascii "b"] (buildFriendListJson []) ∈
      [Event.added 1 (ascii "a") (ascii "b") true,
        .returned 0 (ascii "a") [] (buildFriendListJson []),
        .returned 3 (ascii "a") [ascii "b"] (buildFriendListJson [])] := by
    simp
  refine ⟨_, _, rfl, by decide, by decide, fun h => ?_⟩
  exact not_lists_empty _ (h 3 _ _ _ hmem (ascii "b") List.mem_cons_self)

end FriendCache
end EpollChat
